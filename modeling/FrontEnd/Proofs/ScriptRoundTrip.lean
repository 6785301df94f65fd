import FrontEnd.Parse.Session
import FrontEnd.Proofs.RenderedScript
import FrontEnd.Proofs.ScriptCompleteness
import FrontEnd.Proofs.TokenRoundTrip

/-! Scripts are read back. A well-formed script that is written in any arrangement and any style is
read back as the script, from its tokens and from its text, unless it is nested too deep. -/

namespace FrontEnd.Grammar

open FrontEnd.Parse FrontEnd.Program FrontEnd.Segment

/-- Each lexeme has its form, so that with spaces between them they are scanned one by one. -/
def Writing.Clean (w : Writing) : Prop :=
  ∀ s ∈ w.lexemes, s.IsLexeme ∧ s.Proper

section Writing

variable {v w : Writing}

@[simp] theorem clean_nothing : Writing.nothing.Clean := nofun

@[simp] theorem clean_append : (v ++ w).Clean ↔ v.Clean ∧ w.Clean :=
  List.forall_mem_append

@[simp] theorem clean_one {s : Segment} : (Writing.one s).Clean ↔ s.IsLexeme ∧ s.Proper :=
  List.forall_mem_singleton

@[simp] theorem clean_symbol (s : Symbol) : (Writing.symbol s).Clean :=
  clean_one.2 ⟨trivial, trivial⟩

@[simp] theorem clean_keyword (k : Keyword) : (Writing.keyword k).Clean := by
  refine clean_one.2 ⟨trivial, ?_⟩
  cases k <;> decide

theorem clean_name {text : String} (h : IsName text) : (Writing.name text).Clean :=
  clean_one.2 ⟨trivial, h.1⟩

@[simp] theorem clean_deeper : w.deeper.Clean ↔ w.Clean := Iff.rfl

@[simp] theorem clean_parens : w.parens.Clean ↔ w.Clean := by simp [Writing.parens]

@[simp] theorem clean_braces : w.braces.Clean ↔ w.Clean := by simp [Writing.braces]

theorem clean_all {α : Type} {f : α → Writing} {as : List α} (h : ∀ a ∈ as, (f a).Clean) :
    (Writing.all f as).Clean := by
  induction as with
  | nil => exact clean_nothing
  | cons a as ih =>
    obtain ⟨ha, has⟩ := List.forall_mem_cons.1 h
    exact clean_append.2 ⟨ha, ih has⟩

/-- The text of clean lexemes has a token for each of them. -/
theorem tokenize_text (h : w.Clean) : ∃ ts, tokenize w.text = .ok ts ∧ w.Spells ts := by
  have hreads := reads_tokens 0 (w.lexemes.intersperse (.blank ' '))
  refine ⟨_, ?_, forall₂_of_reads_intersperse (fun s hs => (h s hs).1) hreads⟩
  rw [Writing.text, ← flatMap_chars_intersperse, tokenize_of_apart (apart_intersperse h)]

end Writing

section Expr

variable {st : Style}

theorem proper_toDigits (n : Nat) : (Segment.number (Nat.toDigits 10 n)).Proper := by
  obtain ⟨c, cs, hcs⟩ := List.exists_cons_of_ne_nil (Nat.toDigits_ne_nil : Nat.toDigits 10 n ≠ [])
  have hdigit : ∀ d ∈ c :: cs, Text.isDigit d = true :=
    fun d hd => isDigit_of_mem_toDigits (hcs ▸ hd)
  refine ⟨⟨c, cs, hcs, hdigit c List.mem_cons_self, fun d hd => ?_⟩, ?_⟩
  · simp [isNumberPart, hdigit d (List.mem_cons_of_mem _ hd)]
  · rw [List.count_eq_zero.2 (not_dot_mem_toDigits n)]
    exact Nat.zero_le _

theorem clean_literal {value : Literal} (h : value.WellFormed) : (st.literal value).Clean := by
  cases value with
  | int value => exact clean_one.2 ⟨trivial, proper_toDigits _⟩
  | float value =>
    obtain ⟨text, htext⟩ := h
    exact clean_one.2 ⟨trivial, (st.isFloatText value text htext).1⟩
  | string text => exact clean_one.2 ⟨trivial, h⟩
  | bool value => cases value <;> exact clean_keyword _
  | null => exact clean_keyword _

@[simp] theorem clean_place {l : Layer} {e : Expr} {w : Writing} :
    (st.place l e w).Clean ↔ w.Clean := by
  unfold Style.place
  split <;> simp

theorem clean_typeRef {type : TypeRef} (h : IsName type.name) : (Style.typeRef type).Clean := by
  have hstars : (Writing.all Writing.symbol (List.replicate type.pointerDepth .star)).Clean :=
    clean_all fun s _ => clean_symbol s
  simp [Style.typeRef, clean_name h, hstars]

theorem clean_args {es : List Expr} (h : ∀ e ∈ es, (st.bare e).Clean) : (st.args es).Clean := by
  have hmore : ∀ es, (∀ e ∈ es, (st.bare e).Clean) → (st.moreArgs es).Clean := by
    intro es h
    induction es with
    | nil => simp [Style.moreArgs]
    | cons e es ih =>
      obtain ⟨he, hes⟩ := List.forall_mem_cons.1 h
      simp [Style.moreArgs, he, ih hes]
  cases es with
  | nil => simp [Style.args]
  | cons e es =>
    obtain ⟨he, hes⟩ := List.forall_mem_cons.1 h
    simp [Style.args, he, hmore es hes]

theorem clean_bare (st : Style) (e : Expr) (h : e.WellFormed) : (st.bare e).Clean := by
  have hchild {c : Option Expr} (hc : Expr.ChildWellFormed c)
      (ih : ∀ e ∈ c, e.WellFormed → (st.bare e).Clean) : (st.child c).Clean := by
    cases c with
    | none => simp [Style.child]
    | some e =>
      rw [Expr.ChildWellFormed] at hc
      simp [Style.child, ih e rfl hc.2]
  induction e with
  | binary op left right ihl ihr =>
    rw [Expr.WellFormed] at h
    simp [Style.bare, ihl h.1, ihr h.2]
  | constant value =>
    rw [Expr.WellFormed] at h
    rw [Style.bare]
    exact clean_literal h
  | declaration name type =>
    rw [Expr.WellFormed] at h
    simp [Style.bare, clean_name h.1, clean_typeRef h.2]
  | var name c ih =>
    rw [Expr.WellFormed] at h
    simp [Style.bare, clean_name h.1, hchild h.2 ih]
  | call name args c iha ihc =>
    rw [Expr.WellFormed] at h
    have hargs := clean_args fun e he => iha e he (wellFormed_of_mem_args h.2.1 e he)
    simp [Style.bare, clean_name h.1, hargs, hchild h.2.2 ihc]
  | index name i c ihi ihc =>
    rw [Expr.WellFormed] at h
    simp [Style.bare, clean_name h.1, ihi h.2.1, hchild h.2.2 ihc]
  | classRef type c ih =>
    rw [Expr.WellFormed] at h
    simp [Style.bare, clean_name h.1, hchild h.2.2 ih]
  | this c ih =>
    rw [Expr.WellFormed] at h
    simp [Style.bare, hchild h ih]
  | negate value ih =>
    rw [Expr.WellFormed] at h
    simp [Style.bare, ih h]
  | inverse value ih =>
    rw [Expr.WellFormed] at h
    simp [Style.bare, ih h]

theorem clean_expr {e : Expr} (h : e.WellFormed) : (st.expr e).Clean := by
  simp [Style.expr, clean_bare st e h]

theorem clean_wellFormed_args {es : List Expr} (h : Expr.ArgsWellFormed es) :
    (st.args es).Clean :=
  clean_args fun e he => clean_bare st e (wellFormed_of_mem_args h e he)

end Expr

section Statement

variable {st : Style}

theorem clean_statements {ss : List Statement} (hw : Statement.ListWellFormed ss)
    (h : ∀ s ∈ ss, s.WellFormed → (st.statement s).Clean) : (st.statements ss).Clean := by
  induction ss with
  | nil => simp [Style.statements]
  | cons s ss ih =>
    obtain ⟨hs, hss⟩ := List.forall_mem_cons.1 h
    rw [Statement.ListWellFormed] at hw
    simp [Style.statements, hs hw.1, ih hw.2.2 hss]

theorem clean_counted {s : Symbol} {target : Expr} (h : target.WellFormed) :
    (st.counted s target).Clean := by
  unfold Style.counted
  split <;> simp [clean_expr h]

theorem clean_statement (st : Style) (s : Statement) (h : s.WellFormed) :
    (st.statement s).Clean := by
  induction s with
  | assignment target value =>
    rw [Statement.WellFormed] at h
    simp [Style.statement, clean_expr h.2.1, clean_expr h.2.2]
  | call name args =>
    rw [Statement.WellFormed] at h
    have he : (Expr.call name args none).WellFormed := by
      rw [Expr.WellFormed, Expr.ChildWellFormed]
      exact ⟨h.1, h.2, trivial⟩
    simp [Style.statement, clean_expr he]
  | chainCall e =>
    rw [Statement.WellFormed] at h
    simp [Style.statement, clean_expr h.2]
  | branch condition thenPart elsePart continuation iht ihe ihk =>
    rw [Statement.WellFormed] at h
    obtain ⟨hc, ht, he, hk⟩ := h
    have helse : (st.elseBranch elsePart).Clean := by
      cases elsePart with
      | none => simp [Style.elseBranch]
      | some ss =>
        rw [Statement.ElseWellFormed] at he
        simp [Style.elseBranch, clean_statements he (ihe ss rfl)]
    simp [Style.statement, clean_expr hc, clean_statements ht iht, helse, clean_statements hk ihk]
  | loop condition body ih =>
    rw [Statement.WellFormed] at h
    simp [Style.statement, clean_expr h.1, clean_statements h.2 ih]
  | block body ih =>
    rw [Statement.WellFormed] at h
    simp [Style.statement, clean_statements h ih]
  | ret value =>
    rw [Statement.WellFormed] at h
    cases value with
    | none => simp [Style.statement]
    | some e => simp [Style.statement, clean_expr (h e rfl)]
  | increment target =>
    rw [Statement.WellFormed] at h
    simp [Style.statement, clean_counted h.2]
  | decrement target =>
    rw [Statement.WellFormed] at h
    simp [Style.statement, clean_counted h.2]
  | eval e =>
    rw [Statement.WellFormed] at h
    simp [Style.statement, clean_expr h.2]

theorem clean_body {ss : List Statement} (h : Statement.ListWellFormed ss) :
    (st.body (some ss)).Clean :=
  clean_braces.2 (clean_statements h fun s _ hs => clean_statement st s hs)

end Statement

section Definitions

variable {st : Style}

theorem clean_path {path : List String} (h : ∀ text ∈ path, IsName text) :
    (Style.path path).Clean := by
  cases path with
  | nil => exact clean_nothing
  | cons text texts =>
    obtain ⟨hn, hns⟩ := List.forall_mem_cons.1 h
    have hmore : (Writing.all (fun text => .symbol .period ++ .name text) texts).Clean :=
      clean_all fun text ht => by simp [clean_name (hns text ht)]
    simp [Style.path, clean_name hn, hmore]

theorem clean_attributes {as : List Attribute} (h : ∀ a ∈ as, a.WellFormed) :
    (st.attributes as).Clean :=
  clean_all fun a ha => by simp [clean_name (h a ha).1, clean_wellFormed_args (h a ha).2]

theorem clean_parameters {ps : List Parameter} (h : ∀ p ∈ ps, p.WellFormed) :
    (Style.parameters ps).Clean := by
  have hone : ∀ p ∈ ps, (Style.parameter p).Clean := fun p hp => by
    simp [Style.parameter, clean_name (h p hp).1, clean_typeRef (h p hp).2.1]
  cases ps with
  | nil => exact clean_nothing
  | cons p ps =>
    obtain ⟨hp, hps⟩ := List.forall_mem_cons.1 hone
    have hmore : (Writing.all (fun p => .symbol .comma ++ Style.parameter p) ps).Clean :=
      clean_all fun p hp => by simp [hps p hp]
    simp [Style.parameters, hp, hmore]

@[simp] theorem clean_access (p : Privacy) : (Style.access p).Clean := by
  cases p <;> simp [Style.access]

@[simp] theorem clean_static (isStatic : Bool) : (Style.static isStatic).Clean := by
  cases isStatic <;> simp [Style.static]

theorem clean_signature {params : List Parameter} {returns : TypeRef}
    (hp : ∀ p ∈ params, p.WellFormed) (hr : IsName returns.name) :
    (Style.signature params returns).Clean := by
  simp [Style.signature, clean_parameters hp, clean_typeRef hr]

theorem clean_member {m : Member} (h : m.WellFormed) : (st.member m).Clean := by
  cases m with
  | field f =>
    have hf : f.WellFormed := h
    simp [Style.member, clean_attributes hf.attributes, clean_name hf.name, clean_typeRef hf.type]
  | method m =>
    obtain ⟨hm, -, body, hbody, hw⟩ := h
    simp [Style.member, clean_attributes hm.attributes, clean_name hm.name,
      clean_signature hm.params hm.returns, hbody, clean_body hw]

theorem clean_entry {e : Entry} (h : e.WellFormed) : (st.entry e).Clean := by
  cases e with
  | importing path =>
    have hpath : PathWellFormed path := h
    simp [Style.entry, clean_path hpath.2]
  | defining c =>
    have hc : c.decl.WellFormed := h
    have hattributes : (st.attributes c.attributes).Clean := clean_attributes hc.attributes
    have hname : (Writing.name c.name).Clean := clean_name hc.name
    have hmembers : (Writing.all st.member c.members).Clean :=
      clean_all fun m hm => clean_member (c.wellFormed_of_mem hc m hm)
    simp [Style.entry, hattributes, hname, hmembers]
  | function m =>
    obtain ⟨hm, -, hbody⟩ := h
    have hend : (st.body m.body).Clean := by
      obtain ⟨-, body, hsome, hw⟩ | ⟨-, hnone⟩ := hbody
      · rw [hsome]
        exact clean_body hw
      · rw [hnone]
        exact clean_symbol _
    simp [Style.entry, clean_attributes hm.attributes, clean_name hm.name,
      clean_signature hm.params hm.returns, hend]

theorem clean_script {s : Script} (h : s.WellFormed) (a : Arrangement s) :
    (st.script a).Clean := by
  have hentries : (Writing.all st.entry a.entries).Clean :=
    clean_all fun e he => clean_entry (a.wellFormed_of_mem h e he)
  simp [Style.script, clean_path h.path.2, hentries]

end Definitions

end FrontEnd.Grammar

namespace FrontEnd.Parse

open FrontEnd.Grammar FrontEnd.Program

section Runs

variable {α : Type} {p : Parser α} {a : α} {ts : List Token}

theorem run_of_eq_ok (src : String) (h : p ts = .ok a []) :
    (Session.ofTokens src ts).run p = (.ok a, ⟨src, ts.length, []⟩) := by
  simp [Session.run, Session.ofTokens, Session.goTo, h]

theorem source_of_eq_ok {src : String} (ht : tokenize src = .ok ts) (h : p ts = .ok a []) :
    source p src = .ok a := by
  rw [source, ht]
  simp only [run_of_eq_ok src h]

end Runs

/-- A script is read from the tokens of any writing of it. -/
theorem yields_of_spells {s : Script} (h : s.WellFormed) {a : Arrangement s} {st : Style}
    {ts : List Token} (hts : (st.script a).Spells ts) (n : Nat) :
    Yields ((st.script a).levels ≤ n) (script n ts) (.ok s []) := by
  obtain ⟨f, rfl, rfl, hl⟩ := formOf_script h a ts hts
  rw [← hl]
  exact yields_script f n

/-- Every well-formed script can be arranged, and in every arrangement and style it is read back as
itself to the last token: from its text, and from whatever tokens its lexemes stand for. Only one
that is nested too deep is not, and that is what is reported then. -/
theorem script_roundTrip {s : Script} (h : s.WellFormed) :
    Nonempty (Arrangement s) ∧ ∀ (a : Arrangement s) (st : Style),
      (∃ ts, tokenize (st.script a).text = .ok ts ∧ (st.script a).Spells ts) ∧
      ((st.script a).levels ≤ maxLevels →
        readScript (st.script a).text = .ok s ∧
        ∀ src ts, (st.script a).Spells ts →
          (Session.ofTokens src ts).run (script maxLevels) = (.ok s, ⟨src, ts.length, []⟩)) ∧
      (maxLevels < (st.script a).levels → ∀ ts, (st.script a).Spells ts →
        ∃ site, script maxLevels ts = .error ⟨.tooDeep, site⟩ site) := by
  refine ⟨⟨.importsFirst s⟩, fun a st => ?_⟩
  obtain ⟨ts, htokens, hspells⟩ := tokenize_text (clean_script h a)
  refine ⟨⟨ts, htokens, hspells⟩, fun hfit => ⟨?_, fun src us hus => ?_⟩, fun hdeep us hus => ?_⟩
  · exact source_of_eq_ok htokens ((yields_of_spells h hspells maxLevels).fit hfit)
  · exact run_of_eq_ok src ((yields_of_spells h hus maxLevels).fit hfit)
  · exact (yields_of_spells h hus maxLevels).deep (Nat.not_le.2 hdeep)

def counterMethod : MethodDecl where
  attributes := [⟨"trace", [.constant (.string "n")]⟩]
  name := "down"
  privacy := .hidden
  isStatic := true
  params := [⟨"n", ⟨"int", 1⟩⟩]
  returns := ⟨"int", 0⟩
  body := some [.branch (.binary .lt (.var "n" none) (.constant (.int 10)))
    [.ret (some (.var "n" none))] (some [.decrement (.var "n" none)])
    [.ret (some (.negate (.binary .exp (.binary .add (.var "n" none) (.constant (.int 1)))
      (.this (some (.call "step" [] none))))))]]

def counterField : FieldDecl := ⟨[], "total", .visible, false, ⟨"int", 0⟩⟩

def counterForeign : MethodDecl := ⟨[], "log", .foreign, false, [], ⟨"void", 0⟩, none⟩

def counter : Script :=
  ⟨["a", "b"], [["lib"]], [⟨[], "Counter", .visible, [counterField], [counterMethod]⟩],
    [counterForeign]⟩

/-- The function in front, the import last, and the method in front of the field. -/
def counterMixed : Arrangement counter where
  entries := [.function counterForeign,
    .defining ⟨[], "Counter", .visible, [.method counterMethod, .field counterField]⟩,
    .importing ["lib"]]
  imports := rfl
  classes := rfl
  functions := rfl

theorem wellFormed_counterMethod : counterMethod.MethodWellFormed := by
  have hn : IsName "n" := by decide
  refine ⟨⟨?_, by decide, ?_, by decide⟩, .inr rfl, _, rfl, ?_⟩
  · have hescaped : Segment.Escaped ['n'] := .plain (by decide) (by decide) .nil
    have htrace : IsName "trace" := by decide
    simp [counterMethod, Attribute.WellFormed, Expr.ArgsWellFormed, Expr.WellFormed,
      Literal.WellFormed, htrace, hescaped]
  · have hint : IsName "int" := by decide
    simp [counterMethod, Parameter.WellFormed, TypeRef.isVoid, hn, hint]
  · have hstep : IsName "step" := by decide
    have htarget : (Expr.var "n" none).isAssignable = true := by rfl
    simp [Statement.ListWellFormed, Statement.WellFormed, Statement.ElseWellFormed,
      Statement.isBranch, Expr.WellFormed, Expr.ChildWellFormed, Expr.ArgsWellFormed, Expr.isLink,
      Literal.WellFormed, Number.maxInt, hn, hstep, htarget]

theorem wellFormed_counter : counter.WellFormed where
  path := by decide
  imports := by decide
  classes := by
    simp only [counter, List.forall_mem_singleton]
    refine ⟨nofun, by decide, .inl rfl, ?_, ?_⟩
    · simp only [List.forall_mem_singleton]
      exact ⟨nofun, by decide, .inl rfl, by decide⟩
    · simp only [List.forall_mem_singleton]
      exact wellFormed_counterMethod
  functions := by
    simp only [counter, List.forall_mem_singleton]
    exact ⟨⟨nofun, by decide, nofun, by decide⟩, rfl, .inr ⟨rfl, rfl⟩⟩

set_option maxRecDepth 4000 in
/-- The parts stand in the order of the arrangement, and the base of the power has its parentheses.
-/
theorem script_roundTrip_counter : counter.WellFormed ∧ readScript
    ("namespace a . b ; foreign log ( ) # void ; public class Counter \x7b @ trace ( \"n\" ) " ++
      "private static down ( n # int * ) # int \x7b if n < 10 \x7b return n ; \x7d else " ++
      "\x7b n -- ; \x7d return - ( n + 1 ) ^^ self . step ( ) ; \x7d public total # int ; \x7d " ++
      "import lib ;") = .ok counter := by
  have h := wellFormed_counter
  exact ⟨h, (((script_roundTrip h).2 counterMixed .plain).2.1 (by decide)).1⟩

end FrontEnd.Parse
