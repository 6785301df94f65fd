import FrontEnd.Proofs.CallLists
import FrontEnd.Proofs.ReadWellFormed

/-! The lists of a source that is read, whatever it is read as: arguments, parameters, and arguments
of attributes. They are the lists that the tokens show, and each has as many items as the tokens
show; only where a comma stands right in front of a closing parenthesis is there an item less than
the commas ask for. -/

namespace FrontEnd.Program

def Attribute.arities (a : Attribute) : List (String × Nat) :=
  Expr.argArities a.args ++ [(a.name, a.args.length)]

/-- The lists of a function: those of its attributes, its parameters, and the calls in its body. -/
def MethodDecl.arities (m : MethodDecl) : List (String × Nat) :=
  m.attributes.flatMap Attribute.arities ++ (m.name, m.params.length) ::
    Statement.bodyArities m.body

def FieldDecl.arities (f : FieldDecl) : List (String × Nat) :=
  f.attributes.flatMap Attribute.arities

def ClassDecl.arities (c : ClassDecl) : List (String × Nat) :=
  c.attributes.flatMap Attribute.arities ++
    (c.fields.flatMap FieldDecl.arities ++ c.methods.flatMap MethodDecl.arities)

def Script.arities (s : Script) : List (String × Nat) :=
  s.classes.flatMap ClassDecl.arities ++ s.functions.flatMap MethodDecl.arities

end FrontEnd.Program

namespace FrontEnd.Parse

open FrontEnd.Program

def Member.arities : Member → List (String × Nat)
  | field f => f.arities
  | method m => m.arities

def Part.arities : Part → List (String × Nat)
  | importing _ => []
  | defining c => c.arities
  | function m => m.arities

end FrontEnd.Parse

namespace FrontEnd.Grammar

open FrontEnd.Parse FrontEnd.Parser FrontEnd.Program Brackets

theorem PathForm.quiet (p : PathForm) : ∀ t ∈ p.tokens, Quiet t.kind := by
  simp only [PathForm.tokens, List.forall_mem_cons, List.mem_flatMap]
  refine ⟨quiet_name p.first, ?_⟩
  rintro t ⟨s, -, ht⟩
  simp only [List.mem_cons, List.not_mem_nil, or_false] at ht
  obtain rfl | rfl := ht
  · exact quiet_token (fun _ _ => rfl) s.1
  · exact quiet_name s.2

theorem ParameterForm.quiet (p : ParameterForm) : ∀ t ∈ p.tokens, Quiet t.kind := by
  rw [ParameterForm.tokens, List.forall_mem_cons]
  exact ⟨quiet_name p.name, p.type.quiet⟩

theorem ParameterForm.scans (p : ParameterForm) (fs : List Frame) :
    Scans p.tokens fs (extended fs) [] :=
  scans_quiet p.quiet (List.cons_ne_nil _ _) fs

theorem notAt_moreParameters (more : List (Mark .comma × ParameterForm)) :
    NotAt (.symbol .openParen) (more.flatMap fun p => p.1.1 :: p.2.tokens) := by
  cases more with
  | nil => exact notAt_nil _
  | cons p more => simp [NotAt]

/-- Parameters behind commas are counted with the parameters in front. -/
theorem scans_moreParameters (more : List (Mark .comma × ParameterForm)) (name : String) (n : Nat)
    (fs : List Frame) :
    Scans (more.flatMap fun p => p.1.1 :: p.2.tokens) (some ⟨name, .plain n⟩ :: fs)
      (some ⟨name, .plain (n + more.length)⟩ :: fs) [] := by
  induction more generalizing n with
  | nil => exact scans_nil _
  | cons p more ih =>
    have hmore := ih (n + 1)
    rw [Nat.add_right_comm] at hmore
    have hparameter := (p.2.scans (some ⟨name, .ended n⟩ :: fs)).append hmore (.inl ?_)
    · exact (scans_comma p.1 name n fs).append hparameter (.inr (by simp [frameBehind]))
    · exact notAt_moreParameters more

theorem scans_parameters (f : ParametersForm) (name : String) (fs : List Frame) :
    ∃ l : Listing, l.items = f.value.length ∧
      Scans f.tokens (some ⟨name, .empty⟩ :: fs) (some ⟨name, l⟩ :: fs) [] := by
  cases f with
  | none => exact ⟨.empty, rfl, scans_nil _⟩
  | some first more last =>
    have hfront := (first.scans (some ⟨name, .empty⟩ :: fs)).append
      (scans_moreParameters more name 0 fs) (.inl (notAt_moreParameters more))
    rw [Nat.zero_add] at hfront
    cases last with
    | none =>
      refine ⟨.plain more.length, ?_, ?_⟩
      · simp [ParametersForm.value, Listing.items]
      · simpa [ParametersForm.tokens] using hfront
    | some mark =>
      refine ⟨.ended more.length, ?_, ?_⟩
      · simp [ParametersForm.value, Listing.items]
      · have hall := hfront.append (scans_comma mark name more.length fs)
          (.inl (by simp [NotAt]))
        simpa [ParametersForm.tokens] using hall

/-- The parameters of a function stand behind its name. -/
theorem SignatureForm.scans (s : SignatureForm) (name : TokenOf .name) (fs : List Frame) :
    Scans (name.1 :: s.tokens) fs (extended fs) [(name.1.text, s.params.value.length)] := by
  obtain ⟨l, hl, hparams⟩ := scans_parameters s.params name.1.text (extended fs)
  have hreturns := scans_quiet s.returns.quiet (List.cons_ne_nil _ _) (extended fs)
  have hall := (hparams.list s.opening s.closing).append hreturns
    (.inl (by simp [NotAt, TypeForm.tokens]))
  rw [extended_extended] at hall
  simpa [SignatureForm.tokens, NamedList.arity, hl] using hall

/-- In brackets that hold no list, the tokens close lists with these numbers of items, in some
order. -/
def ShowsInSomeOrder (ts : List Token) (as : List (String × Nat)) : Prop :=
  ∃ as', as'.Perm as ∧ ShowsLists ts as'

section ShowsInSomeOrder

variable {ts us : List Token} {as as' : List (String × Nat)}

theorem ShowsLists.inSomeOrder (h : ShowsLists ts as) : ShowsInSomeOrder ts as :=
  ⟨as, .refl _, h⟩

theorem ShowsInSomeOrder.append (h : ShowsInSomeOrder ts as) (h' : ShowsInSomeOrder us as')
    (hmeet : NotAt (.symbol .openParen) us ∨ frameBehind ts.getLast? = none) :
    ShowsInSomeOrder (ts ++ us) (as ++ as') := by
  obtain ⟨bs, hperm, hshow⟩ := h
  obtain ⟨bs', hperm', hshow'⟩ := h'
  exact ⟨bs ++ bs', hperm.append hperm', hshow.append hshow' hmeet⟩

theorem showsInSomeOrder_quiet (h : ∀ t ∈ ts, Quiet t.kind) : ShowsInSomeOrder ts [] := by
  by_cases hne : ts = []
  · rw [hne]
    exact showsLists_nil.inSomeOrder
  · exact (showsLists_of_scans (scans_quiet h hne)).inSomeOrder

theorem ShowsInSomeOrder.braces (h : ShowsInSomeOrder ts as) (o : Mark .openBrace)
    (c : Mark .closeBrace) : ShowsInSomeOrder (o.1 :: ts ++ [c.1]) as := by
  obtain ⟨bs, hperm, hshow⟩ := h
  exact ⟨bs, hperm, hshow.braces o c⟩

theorem ShowsInSomeOrder.perm (h : ShowsInSomeOrder ts as) (hperm : as.Perm as') :
    ShowsInSomeOrder ts as' := by
  obtain ⟨bs, hbs, hshow⟩ := h
  exact ⟨bs, hbs.trans hperm, hshow⟩

/-- Forms that stand beside each other. -/
theorem showsInSomeOrder_flatMap {F : Type} {tokens : F → List Token}
    {arities : F → List (String × Nat)} {forms : List F}
    (h : ∀ f ∈ forms, ShowsInSomeOrder (tokens f) (arities f))
    (hend : ∀ f ∈ forms, EndsClosed (tokens f)) :
    ShowsInSomeOrder (forms.flatMap tokens) (forms.flatMap arities) := by
  induction forms with
  | nil => exact showsLists_nil.inSomeOrder
  | cons f forms ih =>
    obtain ⟨hf, hforms⟩ := List.forall_mem_cons.1 h
    obtain ⟨hendf, hendforms⟩ := List.forall_mem_cons.1 hend
    exact hf.append (ih hforms hendforms) (.inr hendf.frameBehind)

end ShowsInSomeOrder

theorem AttributeForm.showsLists (a : AttributeForm) : ShowsLists a.tokens a.value.arities := by
  refine showsLists_of_scans fun fs => ?_
  obtain ⟨l, hl, hargs⟩ := listed a.args.1 a.name.1.text (extended (extended fs))
  have hall := (hargs.list a.opening a.closing).cons (quiet_token (fun _ _ => rfl) a.mark)
    (.inr (by simp))
  rw [extended_extended, NamedList.arity, hl] at hall
  exact hall

theorem showsInSomeOrder_attributes (attributes : List AttributeForm) :
    ShowsInSomeOrder (attributes.flatMap AttributeForm.tokens)
      ((attributes.map AttributeForm.value).flatMap Attribute.arities) := by
  rw [List.flatMap_map]
  exact showsInSomeOrder_flatMap (fun a _ => a.showsLists.inSomeOrder)
    fun a _ => endsClosed_concat _ a.closing (by simp)

theorem AccessForm.quiet (a : AccessForm) : Quiet a.token.kind := by
  have hspelled := a.spelled
  unfold access? at hspelled
  split at hspelled
  case h_3 => cases hspelled
  all_goals
    rw [‹a.token.kind = _›]
    exact fun _ _ => rfl

/-- What stands behind attributes and further tokens that belong to no list. -/
theorem showsInSomeOrder_defined (attributes : List AttributeForm) {ks ts : List Token}
    {as : List (String × Nat)} (hks : ∀ t ∈ ks, Quiet t.kind) (h : ShowsInSomeOrder ts as)
    (hts : NotAt (.symbol .openParen) ts) :
    ShowsInSomeOrder (attributes.flatMap AttributeForm.tokens ++ (ks ++ ts))
      ((attributes.map AttributeForm.value).flatMap Attribute.arities ++ as) := by
  have hmore := (showsInSomeOrder_quiet hks).append h (.inl hts)
  refine (showsInSomeOrder_attributes attributes).append hmore (.inl ?_)
  cases ks with
  | nil => exact hts
  | cons t ks => exact notAt_cons.2 (hks t List.mem_cons_self).ne_openParen

/-- The lists of a function behind its attributes: its parameters and what is in its body. -/
theorem showsInSomeOrder_function (attributes : List AttributeForm) {ks : List Token}
    (hks : ∀ t ∈ ks, Quiet t.kind) (name : TokenOf .name) (signature : SignatureForm)
    {ts : List Token} {as : List (String × Nat)} (h : ShowsInSomeOrder ts as)
    (hts : NotAt (.symbol .openParen) ts) :
    ShowsInSomeOrder
      (attributes.flatMap AttributeForm.tokens ++ (ks ++ (name.1 :: signature.tokens ++ ts)))
      ((attributes.map AttributeForm.value).flatMap Attribute.arities ++
        (name.1.text, signature.params.value.length) :: as) := by
  have hall := (showsLists_of_scans (signature.scans name)).inSomeOrder.append h (.inl hts)
  exact showsInSomeOrder_defined attributes hks hall (by simp [NotAt])

theorem quiet_access (access : AccessForm) (static : Option (TokenOf (.keyword .staticKw))) :
    ∀ t ∈ access.token :: static.toList.map Subtype.val, Quiet t.kind := by
  rw [List.forall_mem_cons, List.forall_mem_map]
  exact ⟨access.quiet, fun t _ => quiet_token (fun _ _ => rfl) t⟩

theorem MemberForm.showsInSomeOrder (f : MemberForm) :
    ShowsInSomeOrder f.tokens f.value.arities := by
  cases f with
  | method attributes access static name signature body =>
    have hall := showsInSomeOrder_function attributes (quiet_access access static) name
      signature body.showsLists.inSomeOrder body.notAt_openParen
    simpa [MemberForm.tokens, MemberForm.head, MemberForm.value, Member.arities,
      MethodDecl.arities, Statement.bodyArities, Clause.arities] using hall
  | field attributes access static name type stop =>
    have hquiet : ∀ t ∈ name.1 :: type.tokens ++ [stop.1], Quiet t.kind := by
      rw [List.forall_mem_append, List.forall_mem_cons, List.forall_mem_singleton]
      exact ⟨⟨quiet_name name, type.quiet⟩, quiet_token (fun _ _ => rfl) stop⟩
    have hall := showsInSomeOrder_defined attributes (quiet_access access static)
      (showsInSomeOrder_quiet hquiet) (by simp [NotAt])
    simpa [MemberForm.tokens, MemberForm.head, MemberForm.value, Member.arities,
      FieldDecl.arities] using hall

theorem MemberForm.endsClosed (f : MemberForm) : EndsClosed f.tokens := by
  cases f with
  | method attributes access static name signature body =>
    exact (body.endsClosed (by simp)).append _
  | field attributes access static name type stop => exact endsClosed_concat _ stop (by simp)

/-- Parts of two kinds, with all of one kind put in front of all of the other. -/
theorem perm_filterMap {α β γ δ : Type} {f : α → Option β} {g : α → Option γ} {F : β → List δ}
    {G : γ → List δ} {all : α → List δ}
    (h : ∀ a, all a = (f a).elim [] F ++ (g a).elim [] G) (as : List α) :
    (as.flatMap all).Perm ((as.filterMap f).flatMap F ++ (as.filterMap g).flatMap G) := by
  induction as with
  | nil => exact .refl _
  | cons a as ih =>
    have hf : ((a :: as).filterMap f).flatMap F =
        (f a).elim [] F ++ (as.filterMap f).flatMap F := by
      cases hfa : f a <;> simp [hfa]
    have hg : ((a :: as).filterMap g).flatMap G =
        (g a).elim [] G ++ (as.filterMap g).flatMap G := by
      cases hga : g a <;> simp [hga]
    rw [List.flatMap_cons, h, hf, hg, List.append_assoc, List.append_assoc]
    exact ((ih.append_left _).trans (List.perm_append_comm_assoc _ _ _)).append_left _

theorem PartForm.showsInSomeOrder (f : PartForm) : ShowsInSomeOrder f.tokens f.value.arities := by
  cases f with
  | importing mark path stop =>
    refine showsInSomeOrder_quiet ?_
    simp only [PartForm.tokens, List.cons_append, List.forall_mem_cons, List.forall_mem_append]
    exact ⟨quiet_token (fun _ _ => rfl) mark, path.quiet, quiet_token (fun _ _ => rfl) stop,
      by simp⟩
  | function attributes mark name signature body =>
    have hmark : ∀ t ∈ [mark.1], Quiet t.kind :=
      List.forall_mem_singleton.2 (quiet_token (fun _ _ => rfl) mark)
    have hall := showsInSomeOrder_function attributes hmark name signature
      body.showsLists.inSomeOrder body.notAt_openParen
    simpa [PartForm.tokens, PartForm.value, Part.arities, MethodDecl.arities,
      Statement.bodyArities, Clause.arities] using hall
  | foreign attributes mark name signature stop =>
    have hmark : ∀ t ∈ [mark.1], Quiet t.kind :=
      List.forall_mem_singleton.2 (quiet_token (fun _ _ => rfl) mark)
    have hstop : ∀ t ∈ [stop.1], Quiet t.kind :=
      List.forall_mem_singleton.2 (quiet_token (fun _ _ => rfl) stop)
    have hall := showsInSomeOrder_function attributes hmark name signature
      (showsInSomeOrder_quiet hstop) (by simp [NotAt])
    simpa [PartForm.tokens, PartForm.value, Part.arities, MethodDecl.arities,
      Statement.bodyArities] using hall
  | defining attributes access mark name opening members closing =>
    have hfront : ∀ t ∈ [access.token, mark.1, name.1], Quiet t.kind := by
      simp only [List.forall_mem_cons]
      exact ⟨access.quiet, quiet_token (fun _ _ => rfl) mark, quiet_name name, by simp⟩
    have hmembers : ShowsInSomeOrder (members.flatMap MemberForm.tokens)
        ((members.map MemberForm.value).flatMap Member.arities) := by
      rw [List.flatMap_map]
      exact showsInSomeOrder_flatMap (fun f _ => f.showsInSomeOrder) fun f _ => f.endsClosed
    have hsplit : ∀ m : Member, m.arities =
        m.field?.elim [] FieldDecl.arities ++ m.method?.elim [] MethodDecl.arities := by
      rintro (f | m)
      · exact (List.append_nil _).symm
      · rfl
    have hbody := (hmembers.perm (perm_filterMap hsplit _)).braces opening closing
    have hall := showsInSomeOrder_defined attributes hfront hbody (by simp [NotAt])
    simpa [PartForm.tokens, PartForm.value, Part.arities, ClassDecl.arities] using hall

theorem PartForm.endsClosed (f : PartForm) : EndsClosed f.tokens := by
  cases f with
  | importing mark path stop => exact endsClosed_concat _ stop (by simp)
  | function attributes mark name signature body => exact (body.endsClosed (by simp)).append _
  | foreign attributes mark name signature stop => exact endsClosed_concat _ stop (by simp)
  | defining attributes access mark name opening members closing =>
    exact endsClosed_concat _ closing (by simp)

theorem ScriptForm.showsInSomeOrder (f : ScriptForm) :
    ShowsInSomeOrder f.tokens f.value.arities := by
  have hfront : ∀ t ∈ f.mark.1 :: f.path.tokens ++ [f.stop.1], Quiet t.kind := by
    rw [List.forall_mem_append, List.forall_mem_cons, List.forall_mem_singleton]
    exact ⟨⟨quiet_token (fun _ _ => rfl) f.mark, f.path.quiet⟩,
      quiet_token (fun _ _ => rfl) f.stop⟩
  have hparts : ShowsInSomeOrder (f.parts.flatMap PartForm.tokens)
      ((f.parts.map PartForm.value).flatMap Part.arities) := by
    rw [List.flatMap_map]
    exact showsInSomeOrder_flatMap (fun p _ => p.showsInSomeOrder) fun p _ => p.endsClosed
  have hsplit : ∀ p : Part, p.arities =
      p.class?.elim [] ClassDecl.arities ++ p.function?.elim [] MethodDecl.arities := by
    rintro (path | c | m)
    · rfl
    · exact (List.append_nil _).symm
    · rfl
  have hend : EndsClosed (f.mark.1 :: f.path.tokens ++ [f.stop.1]) :=
    endsClosed_concat _ f.stop (by simp)
  have hall := (showsInSomeOrder_quiet hfront).append (hparts.perm (perm_filterMap hsplit _))
    (.inr hend.frameBehind)
  simpa [ScriptForm.tokens, ScriptForm.value, Part.toScript, Script.arities] using hall

end FrontEnd.Grammar

namespace FrontEnd.Parse

open FrontEnd.Grammar FrontEnd.Parser FrontEnd.Program

/-- An expression that is read from a source is what all its tokens are written for. -/
theorem exists_form_of_readExpr {src : String} {e : Expr} (h : readExpr src = .ok e) :
    ∃ f : ExprForm, tokenize src = .ok f.tokens ∧ f.value = e := by
  obtain ⟨tokens, rest, ht, hp⟩ := exists_of_source h
  obtain ⟨e', us, he, hrest⟩ := bind_eq_ok_iff.1 hp
  obtain ⟨_, vs, hfinish, hpure⟩ := bind_eq_ok_iff.1 hrest
  obtain ⟨rfl, -⟩ := pure_eq_ok_iff.1 hpure
  obtain ⟨f, rfl, hv, -⟩ := exprSound_expr _ _ _ _ he
  cases us with
  | nil => exact ⟨f, by rw [ht, List.append_nil], hv⟩
  | cons t us => cases hfinish

def Reading.arities : (r : Reading) → r.Tree → List (String × Nat)
  | expr, e => Expr.arities e
  | statements, ss => Statement.listArities ss
  | script, s => Script.arities s

theorem showsInSomeOrder_of_read {r : Reading} {src : String} {tree : r.Tree}
    (h : r.read src = .ok tree) :
    ∃ tokens, tokenize src = .ok tokens ∧ ShowsInSomeOrder tokens (r.arities tree) := by
  cases r with
  | expr =>
    obtain ⟨f, ht, rfl⟩ := exists_form_of_readExpr h
    exact ⟨f.tokens, ht, f.showsLists.inSomeOrder⟩
  | statements =>
    obtain ⟨f, ht, rfl⟩ := exists_form_of_readStatements h
    exact ⟨f.tokens, ht, f.showsLists.inSomeOrder⟩
  | script =>
    obtain ⟨f, ht, rfl⟩ := exists_form_of_readScript h
    exact ⟨f.tokens, ht, f.showsInSomeOrder⟩

/-- The tokens of a source that is read show the lists of what is read: by their names, with as many
items. All its commas are commas of these lists. A list is of the form `[item (',' item)*]` unless a
comma stands right in front of its closing parenthesis; then it has as many items as commas. -/
theorem lists_of_read {r : Reading} {src : String} {tree : r.Tree} (h : r.read src = .ok tree) :
    ∃ tokens lists, tokenize src = .ok tokens ∧ listsOf tokens = some lists ∧
      (lists.map NamedList.arity).Perm (r.arities tree) ∧
      (lists.map (·.form.commas)).sum = tokens.countP (·.kind = .symbol .comma) ∧
      lists.countP (¬·.form.Strict) = commaEnds none tokens ∧
      ∀ l ∈ lists, ¬l.form.Strict → 0 < l.form.commas ∧ l.form.items = l.form.commas := by
  obtain ⟨tokens, ht, as, hperm, hshow⟩ := showsInSomeOrder_of_read h
  obtain ⟨lists, hrun, rfl⟩ := hshow [] rfl []
  rw [List.nil_append] at hrun
  refine ⟨tokens, lists, ht, ?_, hperm, ?_, ?_, fun l _ hl => ?_⟩
  · rw [listsOf, hrun]
  · have hcommas := Brackets.commas_run hrun
    simpa [Brackets.commas] using hcommas
  · have hloose := Brackets.loose_run (by simp [Brackets.AtComma]) hrun
    simpa [Brackets.loose] using hloose
  · obtain ⟨n, hn⟩ := l.form.not_strict_iff.1 hl
    rw [hn]
    exact ⟨Nat.succ_pos n, rfl⟩

/-- A script with lists of all kinds: with and without items, and with and without a comma behind
the last one. -/
def manyLists : String :=
  "namespace n; @a(1,) func f(x #T, y #T) #T \x7b g(x, h(),); \x7d"

def manyListsTokens : List Token :=
  [⟨.keyword .namespaceKw, "namespace", 0⟩, ⟨.name, "n", 10⟩, ⟨.symbol .semicolon, ";", 11⟩,
    ⟨.symbol .atSign, "@", 13⟩, ⟨.name, "a", 14⟩, ⟨.symbol .openParen, "(", 15⟩, ⟨.int, "1", 16⟩,
    ⟨.symbol .comma, ",", 17⟩, ⟨.symbol .closeParen, ")", 18⟩, ⟨.keyword .funcKw, "func", 20⟩,
    ⟨.name, "f", 25⟩, ⟨.symbol .openParen, "(", 26⟩, ⟨.name, "x", 27⟩, ⟨.symbol .hash, "#", 29⟩,
    ⟨.name, "T", 30⟩, ⟨.symbol .comma, ",", 31⟩, ⟨.name, "y", 33⟩, ⟨.symbol .hash, "#", 35⟩,
    ⟨.name, "T", 36⟩, ⟨.symbol .closeParen, ")", 37⟩, ⟨.symbol .hash, "#", 39⟩, ⟨.name, "T", 40⟩,
    ⟨.symbol .openBrace, "\x7b", 42⟩, ⟨.name, "g", 44⟩, ⟨.symbol .openParen, "(", 45⟩,
    ⟨.name, "x", 46⟩, ⟨.symbol .comma, ",", 47⟩, ⟨.name, "h", 49⟩, ⟨.symbol .openParen, "(", 50⟩,
    ⟨.symbol .closeParen, ")", 51⟩, ⟨.symbol .comma, ",", 52⟩, ⟨.symbol .closeParen, ")", 53⟩,
    ⟨.symbol .semicolon, ";", 54⟩, ⟨.symbol .closeBrace, "\x7d", 56⟩]

theorem lists_of_read_manyLists :
    ∃ tree : Script, Reading.read .script manyLists = .ok tree ∧
      Reading.arities .script tree = [("a", 1), ("f", 2), ("h", 0), ("g", 2)] ∧
      listsOf manyListsTokens =
        some [⟨"a", .ended 0⟩, ⟨"f", .plain 1⟩, ⟨"h", .empty⟩, ⟨"g", .ended 1⟩] ∧
      ∃ tokens lists, tokenize manyLists = .ok tokens ∧ listsOf tokens = some lists ∧
        lists.countP (¬·.form.Strict) = commaEnds none tokens := by
  have ht : tokenize manyLists = .ok manyListsTokens := by decide +kernel
  have hread : Reading.read .script manyLists = .ok
      ⟨["n"], [], [], [⟨[⟨"a", [.constant (.int 1)]⟩], "f", .global, false,
        [⟨"x", ⟨"T", 0⟩⟩, ⟨"y", ⟨"T", 0⟩⟩], ⟨"T", 0⟩,
        some [.call "g" [.var "x" none, .call "h" [] none]]⟩]⟩ := source_of_ok ht (by rfl)
  obtain ⟨tokens, lists, htokens, hlists, -, -, hloose, -⟩ := lists_of_read hread
  exact ⟨_, hread, by rfl, by rfl, tokens, lists, htokens, hlists, hloose⟩

/-- The tokens of `f(a,)`. -/
def endedArgument : List Token :=
  [⟨.name, "f", 0⟩, ⟨.symbol .openParen, "(", 1⟩, ⟨.name, "a", 2⟩, ⟨.symbol .comma, ",", 3⟩,
    ⟨.symbol .closeParen, ")", 4⟩]

/-- The tokens of `namespace n; @a(1,) foreign f(x #T,) #T;`. -/
def endedParameter : List Token :=
  [⟨.keyword .namespaceKw, "namespace", 0⟩, ⟨.name, "n", 10⟩, ⟨.symbol .semicolon, ";", 11⟩,
    ⟨.symbol .atSign, "@", 13⟩, ⟨.name, "a", 14⟩, ⟨.symbol .openParen, "(", 15⟩, ⟨.int, "1", 16⟩,
    ⟨.symbol .comma, ",", 17⟩, ⟨.symbol .closeParen, ")", 18⟩,
    ⟨.keyword .foreignKw, "foreign", 20⟩, ⟨.name, "f", 28⟩, ⟨.symbol .openParen, "(", 29⟩,
    ⟨.name, "x", 30⟩, ⟨.symbol .hash, "#", 32⟩, ⟨.name, "T", 33⟩, ⟨.symbol .comma, ",", 34⟩,
    ⟨.symbol .closeParen, ")", 35⟩, ⟨.symbol .hash, "#", 37⟩, ⟨.name, "T", 38⟩,
    ⟨.symbol .semicolon, ";", 39⟩]

/-- A comma is taken in front of the closing parenthesis, and no item behind it, in arguments, in
the arguments of an attribute and in parameters. -/
theorem not_strict_of_read :
    (tokenize "f(a,)" = .ok endedArgument ∧
      readExpr "f(a,)" = .ok (.call "f" [.var "a" none] none) ∧
      commaEnds none endedArgument = 1 ∧ listsOf endedArgument = some [⟨"f", .ended 0⟩]) ∧
    (tokenize "namespace n; @a(1,) foreign f(x #T,) #T;" = .ok endedParameter ∧
      readScript "namespace n; @a(1,) foreign f(x #T,) #T;" = .ok
        ⟨["n"], [], [], [⟨[⟨"a", [.constant (.int 1)]⟩], "f", .foreign, false,
          [⟨"x", ⟨"T", 0⟩⟩], ⟨"T", 0⟩, none⟩]⟩ ∧
      commaEnds none endedParameter = 2 ∧
      listsOf endedParameter = some [⟨"a", .ended 0⟩, ⟨"f", .ended 0⟩]) ∧
    ¬(Listing.ended 0).Strict := by
  have hargument : tokenize "f(a,)" = .ok endedArgument := by decide +kernel
  have hparameter : tokenize "namespace n; @a(1,) foreign f(x #T,) #T;" = .ok endedParameter := by
    decide +kernel
  exact ⟨⟨hargument, source_of_ok hargument (by rfl), by rfl, by rfl⟩,
    ⟨hparameter, source_of_ok hparameter (by rfl), by rfl, by rfl⟩, by decide⟩

end FrontEnd.Parse
