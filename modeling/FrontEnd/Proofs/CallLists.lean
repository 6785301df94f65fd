import FrontEnd.Proofs.CommaLists
import FrontEnd.Proofs.ExprCompleteness

/-! The calls in expressions and statements are the lists that their tokens show. The induction is
on the grammar: each rule puts together the lists that its parts show, and what stands between two
parentheses shows the number of items. -/

namespace FrontEnd.Program

namespace Expr

mutual

/-- The calls in an expression, by what closes first: names with numbers of arguments. -/
def arities : Expr → List (String × Nat)
  | binary _ left right => left.arities ++ right.arities
  | constant _ => []
  | declaration _ _ => []
  | var _ c => childArities c
  | call name args c => argArities args ++ (name, args.length) :: childArities c
  | index _ i c => i.arities ++ childArities c
  | classRef _ c => childArities c
  | this c => childArities c
  | negate e => e.arities
  | inverse e => e.arities

def childArities : Option Expr → List (String × Nat)
  | none => []
  | some e => e.arities

def argArities : List Expr → List (String × Nat)
  | [] => []
  | e :: es => e.arities ++ argArities es

end

end Expr

namespace Statement

mutual

def arities : Statement → List (String × Nat)
  | assignment target value => target.arities ++ value.arities
  | call name args => Expr.argArities args ++ [(name, args.length)]
  | chainCall reference => reference.arities
  | branch condition thenPart elsePart continuation =>
    condition.arities ++ listArities thenPart ++ bodyArities elsePart ++ listArities continuation
  | loop condition body => condition.arities ++ listArities body
  | block body => listArities body
  | ret value => Expr.childArities value
  | increment target => target.arities
  | decrement target => target.arities
  | eval expr => expr.arities

def listArities : List Statement → List (String × Nat)
  | [] => []
  | s :: ss => s.arities ++ listArities ss

def bodyArities : Option (List Statement) → List (String × Nat)
  | none => []
  | some body => listArities body

end

/-- An expression has the same calls as a statement. -/
theorem arities_ofExpr (e : Expr) : (ofExpr e).arities = e.arities := by
  unfold ofExpr
  split
  · simp [arities, Expr.arities, Expr.childArities]
  · split
    · rfl
    · rfl

end Statement

end FrontEnd.Program

namespace FrontEnd.Grammar

open FrontEnd.Parse FrontEnd.Parser FrontEnd.Program Brackets

theorem quiet_operator {l : Layer} {s : Symbol} {op : Operator} (h : l.operator? s = some op) :
    Quiet (.symbol s) := by
  unfold Layer.operator? at h
  split at h
  case h_16 => cases h
  all_goals exact fun _ _ => rfl

theorem quiet_literal {t : Token} {value : Literal} (h : literal? t = some value) :
    Quiet t.kind := by
  unfold literal? at h
  split at h
  case h_7 => cases h
  all_goals
    rw [‹t.kind = _›]
    exact fun _ _ => rfl

/-- A token of a kind that is quiet. -/
theorem quiet_token {kind : TokenKind} (h : Quiet kind) (t : TokenOf kind) : Quiet t.1.kind := by
  rwa [t.2]

theorem quiet_name (t : TokenOf .name) : Quiet t.1.kind :=
  quiet_token (fun _ _ => rfl) t

theorem TypeForm.quiet (f : TypeForm) : ∀ t ∈ f.tokens, Quiet t.kind := by
  simp only [TypeForm.tokens, List.forall_mem_cons, List.forall_mem_map]
  exact ⟨quiet_token (fun _ _ => rfl) f.hash, quiet_name f.name,
    fun star _ => quiet_token (fun _ _ => rfl) star⟩

/-! ### Expressions -/

/-- What the tokens of a phrase show, by kind of phrase: the calls that it stands for and, of what
stands in parentheses, the number of arguments. -/
def Listed : (p : Phrase) → Derivation p → Prop
  | .expr _, d => ∀ fs, Scans d.tokens fs (extended fs) d.value.arities
  | .root, d => ∃ as, (∀ c, (d.value c).arities = as ++ Expr.childArities c) ∧
      ∀ fs, Scans d.tokens fs (extended fs) as
  | .link, d => ∃ as, (∀ c, (d.value c).arities = as ++ Expr.childArities c) ∧
      ∀ fs, Scans d.tokens fs (extended fs) as
  | .links, d => ∀ fs, Scans d.tokens (extended fs) (extended fs) (Expr.childArities d.value)
  | .args, d => ∀ name fs, ∃ l : Listing, l.items = d.value.length ∧
      Scans d.tokens (some ⟨name, .empty⟩ :: fs) (some ⟨name, l⟩ :: fs) (Expr.argArities d.value)
  | .moreArgs, d => ∀ name n fs, ∃ l : Listing, l.items = n + 1 + d.value.length ∧
      Scans d.tokens (some ⟨name, .plain n⟩ :: fs) (some ⟨name, l⟩ :: fs)
        (Expr.argArities d.value)

section Rules

variable {ts us : List Token} {as as' : List (String × Nat)} {t : Token}

/-- Tokens with a quiet one between them. -/
theorem scans_between (h : ∀ fs, Scans ts fs (extended fs) as)
    (h' : ∀ fs, Scans us fs (extended fs) as') (ht : Quiet t.kind) (hname : t.kind ≠ .name)
    (fs : List Frame) : Scans (ts ++ t :: us) fs (extended fs) (as ++ as') := by
  have hmore := (h' (extended (extended fs))).cons ht (.inr hname)
  rw [extended_extended, extended_extended] at hmore
  exact (h fs).append hmore (.inl (notAt_cons.2 ht.ne_openParen))

/-- Tokens with a quiet one in front. -/
theorem scans_behind (h : ∀ fs, Scans ts fs (extended fs) as) (ht : Quiet t.kind)
    (hname : t.kind ≠ .name) (fs : List Frame) : Scans (t :: ts) fs (extended fs) as := by
  have hmore := (h (extended fs)).cons ht (.inr hname)
  rwa [extended_extended] at hmore

end Rules

theorem Derivation.notAt_openParen (d : Derivation .moreArgs) :
    NotAt (.symbol .openParen) d.tokens := by
  cases d with
  | noMoreArgs => exact notAt_nil _
  | lastComma mark => simp [NotAt]
  | nextArg mark arg more => simp [NotAt]

/-- By the rules: each of them puts together what its parts show. -/
theorem listed {p : Phrase} (d : Derivation p) : Listed p d := by
  induction d with
  | next h d ih => exact ih
  | binary left mark h right ihl ihr =>
    exact scans_between ihl ihr (quiet_token (quiet_operator h) mark) (by simp)
  | power base mark exponent ihb ihe =>
    exact scans_between ihb ihe (quiet_token (fun _ _ => rfl) mark) (by simp)
  | negate mark d ih | inverse mark d ih =>
    exact scans_behind ih (quiet_token (fun _ _ => rfl) mark) (by simp)
  | literal h => exact scans_one (quiet_literal h)
  | group opening d closing ih =>
    exact fun fs => (ih (none :: fs)).brackets (by decide) opening closing
  | declaration mark name type =>
    refine scans_quiet ?_ (List.cons_ne_nil _ _)
    simp only [Derivation.tokens, List.forall_mem_cons]
    exact ⟨quiet_token (fun _ _ => rfl) mark, quiet_name name, type.quiet⟩
  | chain root links ihr ihl =>
    obtain ⟨as, hvalue, hroot⟩ := ihr
    intro fs
    have hall := (hroot fs).append (ihl fs) (.inl ?_)
    · rw [← hvalue] at hall
      exact hall
    · simpa using notAt_links links (by decide) (notAt_nil _)
  | selfRoot mark => exact ⟨[], fun c => rfl, scans_one (quiet_token (fun _ _ => rfl) mark)⟩
  | typeRoot hash name =>
    refine ⟨[], fun c => rfl, scans_quiet ?_ (List.cons_ne_nil _ _)⟩
    simp only [Derivation.tokens, List.forall_mem_cons]
    exact ⟨quiet_token (fun _ _ => rfl) hash, quiet_name name, by simp⟩
  | linkRoot link ih => exact ih
  | var name => exact ⟨[], fun c => rfl, scans_one (quiet_name name)⟩
  | call name opening args closing ih =>
    refine ⟨Expr.argArities args.value ++ [(name.1.text, args.value.length)], fun c => ?_,
      fun fs => ?_⟩
    · simp [Derivation.value, Expr.arities]
    · obtain ⟨l, hl, hargs⟩ := ih name.1.text (extended fs)
      rw [← hl]
      exact hargs.list opening closing
  | index name opening d closing ih =>
    refine ⟨d.value.arities, fun c => rfl, fun fs => ?_⟩
    have hinner := (ih (none :: extended fs)).brackets (by decide) opening closing
    rw [extended_extended] at hinner
    exact hinner.cons (quiet_name name) (.inl (by simp [NotAt]))
  | noLinks => exact fun fs => scans_nil _
  | dot mark link links ih ihl =>
    obtain ⟨as, hvalue, hlink⟩ := ih
    intro fs
    have hall := (hlink (extended (extended fs))).append (ihl _) (.inl ?_)
    · have hdot := hall.cons (quiet_token (fun _ _ => rfl) mark) (.inr (by simp))
      rw [extended_extended, extended_extended] at hdot
      rw [Derivation.value, Expr.childArities, hvalue]
      exact hdot
    · simpa using notAt_links links (by decide) (notAt_nil _)
  | noArgs => exact fun name fs => ⟨.empty, rfl, scans_nil _⟩
  | someArgs first more ihf ihm =>
    intro name fs
    obtain ⟨l, hl, hmore⟩ := ihm name 0 fs
    refine ⟨l, ?_, (ihf (some ⟨name, .empty⟩ :: fs)).append hmore (.inl more.notAt_openParen)⟩
    rw [hl, Derivation.value, List.length_cons]
    omega
  | noMoreArgs => exact fun name n fs => ⟨.plain n, rfl, scans_nil _⟩
  | lastComma mark => exact fun name n fs => ⟨.ended n, rfl, scans_comma mark name n fs⟩
  | nextArg mark arg more iha ihm =>
    intro name n fs
    obtain ⟨l, hl, hmore⟩ := ihm name (n + 1) fs
    have harg := (iha (some ⟨name, .ended n⟩ :: fs)).append hmore (.inl more.notAt_openParen)
    refine ⟨l, ?_, (scans_comma mark name n fs).append harg (.inr ?_)⟩
    · rw [hl, Derivation.value, List.length_cons]
      omega
    · simp [frameBehind]

/-! ### Statements -/

/-- The tokens end with one that is no name. -/
def EndsClosed (ts : List Token) : Prop :=
  ∃ us t, ts = us ++ [t] ∧ t.kind ≠ .name

theorem EndsClosed.frameBehind {ts : List Token} (h : EndsClosed ts) :
    frameBehind ts.getLast? = none := by
  obtain ⟨us, t, rfl, ht⟩ := h
  simp [Brackets.frameBehind, ht]

theorem EndsClosed.append {us : List Token} (h : EndsClosed us) (ts : List Token) :
    EndsClosed (ts ++ us) := by
  obtain ⟨vs, t, rfl, ht⟩ := h
  exact ⟨ts ++ vs, t, by rw [List.append_assoc], ht⟩

theorem endsClosed_concat (ts : List Token) {kind : TokenKind} (t : TokenOf kind)
    (h : kind ≠ .name) : EndsClosed (ts ++ [t.1]) :=
  ⟨ts, t.1, rfl, by rwa [t.2]⟩

theorem Form.endsClosed {c : Clause} (f : Form c) (hc : c ≠ .items) : EndsClosed f.tokens := by
  induction f with
  | whileLoop mark condition body ih => exact (ih (by simp)).append _
  | inner body ih => exact ih (by simp)
  | ret mark value stop =>
    cases value with
    | none => exact endsClosed_concat [mark.1] stop (by simp)
    | some value => exact endsClosed_concat _ stop (by simp)
  | countFirst mark h target ht stop => exact endsClosed_concat _ stop (by simp)
  | countLast target ht mark h stop =>
    exact (endsClosed_concat [mark.1] stop (by simp)).append target.tokens
  | assign target ht mark value stop => exact endsClosed_concat _ stop (by simp)
  | bare e stop => exact endsClosed_concat _ stop (by simp)
  | ifOnly mark condition thenPart ih => exact (ih (by simp)).append _
  | ifElse mark condition thenPart mark' elsePart iht ihe =>
    exact ((ihe (by simp)).append [mark'.1]).append _
  | ifElseIf mark condition thenPart mark' elsePart iht ihe =>
    exact ((ihe (by simp)).append [mark'.1]).append _
  | braces opening body closing ih => exact endsClosed_concat _ closing (by simp)
  | noItems | plain | branch => exact absurd rfl hc

/-- In brackets that hold no list, the tokens close lists with these numbers of items, in this
order. -/
def ShowsLists (ts : List Token) (as : List (String × Nat)) : Prop :=
  ∀ fs, extended fs = fs → Scans ts fs fs as

section ShowsLists

variable {ts us : List Token} {as as' : List (String × Nat)} {kind : TokenKind}

theorem showsLists_nil : ShowsLists [] [] :=
  fun fs _ => scans_nil fs

theorem showsLists_of_scans (h : ∀ fs, Scans ts fs (extended fs) as) : ShowsLists ts as := by
  intro fs hfs
  have hscan := h fs
  rwa [hfs] at hscan

theorem ShowsLists.append (h : ShowsLists ts as) (h' : ShowsLists us as')
    (hmeet : NotAt (.symbol .openParen) us ∨ frameBehind ts.getLast? = none) :
    ShowsLists (ts ++ us) (as ++ as') :=
  fun fs hfs => (h fs hfs).append (h' fs hfs) hmeet

theorem ShowsLists.mark (h : ShowsLists ts as) (t : TokenOf kind) (hq : Quiet kind)
    (hname : kind ≠ .name) : ShowsLists (t.1 :: ts) as := by
  intro fs hfs
  have hscan := h fs hfs
  rw [← hfs] at hscan
  have hall := hscan.cons (quiet_token hq t) (.inr (by rwa [t.2]))
  rwa [hfs] at hall

theorem ShowsLists.stop (h : ShowsLists ts as) (t : TokenOf kind) (hq : Quiet kind) :
    ShowsLists (ts ++ [t.1]) as := by
  have hone := showsLists_of_scans (scans_one (quiet_token hq t))
  have hall := h.append hone (.inl (notAt_cons.2 (quiet_token hq t).ne_openParen))
  rwa [List.append_nil] at hall

theorem ShowsLists.braces (h : ShowsLists ts as) (o : Mark .openBrace) (c : Mark .closeBrace) :
    ShowsLists (o.1 :: ts ++ [c.1]) as :=
  showsLists_of_scans fun fs => (h (none :: fs) rfl).brackets (by decide) o c

end ShowsLists

def Clause.arities : (c : Clause) → c.Value → List (String × Nat)
  | .statement, s => s.arities
  | .branches, b =>
    b.condition.arities ++ Statement.listArities b.thenPart ++ Statement.bodyArities b.elsePart
  | .items, ss => Statement.listArities ss
  | .block, ss => Statement.listArities ss

theorem ExprForm.showsLists (e : ExprForm) : ShowsLists e.tokens e.value.arities :=
  showsLists_of_scans (listed e.1)

theorem quiet_counting {s : Symbol} {make : Expr → Statement} (h : counting? s = some make) :
    Quiet (.symbol s) := by
  unfold counting? at h
  split at h
  case h_3 => cases h
  all_goals exact fun _ _ => rfl

theorem arities_counting {s : Symbol} {make : Expr → Statement} (h : counting? s = some make)
    (e : Expr) : (make e).arities = e.arities := by
  unfold counting? at h
  split at h
  case h_3 => cases h
  all_goals
    cases h
    rfl

theorem Form.notAt_openParen (f : Form .block) : NotAt (.symbol .openParen) f.tokens := by
  cases f with
  | braces opening body closing => simp [NotAt]

/-- A keyword, a condition and a block that depends on it. -/
theorem showsLists_guarded {k : Keyword} (mark : TokenOf (.keyword k)) (condition : ExprForm)
    {body : Form .block} (h : ShowsLists body.tokens (Statement.listArities body.value)) :
    ShowsLists (mark.1 :: condition.tokens ++ body.tokens)
      (condition.value.arities ++ Statement.listArities body.value) :=
  (condition.showsLists.append h (.inl body.notAt_openParen)).mark mark (fun _ _ => rfl) (by simp)

theorem Form.showsLists {c : Clause} (f : Form c) : ShowsLists f.tokens (c.arities f.value) := by
  induction f with
  | whileLoop mark condition body ih => exact showsLists_guarded mark condition ih
  | inner body ih => exact ih
  | ret mark value stop =>
    cases value with
    | none =>
      exact (showsLists_nil.mark mark (fun _ _ => rfl) (by simp)).stop stop fun _ _ => rfl
    | some value =>
      exact (value.showsLists.mark mark (fun _ _ => rfl) (by simp)).stop stop fun _ _ => rfl
  | countFirst mark h target ht stop =>
    have hall := (target.showsLists.mark mark (quiet_counting h) (by simp)).stop stop
      fun _ _ => rfl
    rwa [← arities_counting h] at hall
  | countLast target ht mark h stop =>
    have hall := (target.showsLists.stop mark (quiet_counting h)).stop stop fun _ _ => rfl
    rw [← arities_counting h, List.append_assoc] at hall
    exact hall
  | assign target ht mark value stop =>
    have hvalue := value.showsLists.mark mark (fun _ _ => rfl) (by simp)
    have hall := target.showsLists.append hvalue (.inl (by simp [NotAt]))
    exact hall.stop stop fun _ _ => rfl
  | bare e stop =>
    have hall := e.showsLists.stop stop fun _ _ => rfl
    rwa [← Statement.arities_ofExpr] at hall
  | ifOnly mark condition thenPart ih =>
    have hall := showsLists_guarded mark condition ih
    rwa [← List.append_nil (_ ++ Statement.listArities _)] at hall
  | ifElse mark condition thenPart mark' elsePart iht ihe =>
    exact (showsLists_guarded mark condition iht).append
      (ihe.mark mark' (fun _ _ => rfl) (by simp)) (.inl (by simp [NotAt]))
  | ifElseIf mark condition thenPart mark' elsePart iht ihe =>
    have hall := (showsLists_guarded mark condition iht).append
      (ihe.mark mark' (fun _ _ => rfl) (by simp)) (.inl (by simp [NotAt]))
    simpa [Clause.arities, Form.value, Branches.toStatement, Statement.bodyArities,
      Statement.listArities, Statement.arities] using hall
  | noItems => exact showsLists_nil
  | plain s rest ihs ihr => exact ihs.append ihr (.inr (s.endsClosed (by simp)).frameBehind)
  | branch b rest ihb ihr =>
    have hall := ihb.append ihr (.inr (b.endsClosed (by simp)).frameBehind)
    simpa [Clause.arities, Form.value, Branches.toStatement, Statement.listArities,
      Statement.arities] using hall
  | braces opening body closing ih => exact ih.braces opening closing

end FrontEnd.Grammar
