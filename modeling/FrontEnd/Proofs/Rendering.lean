import FrontEnd.Parse.Script
import FrontEnd.Proofs.Lexemes
import FrontEnd.Proofs.Precedence
import Mathlib.Data.List.Basic

/-! How scripts are written. A script that can be written at all is well-formed: its names are
names, its chains are chains, an `if` is the last statement of its list. It is written as lexemes, in
an arrangement of its parts and in a style, which leave open in what order imports, classes and
functions stand among each other and where there are parentheses that could be left out. Along with
the lexemes goes the number of nesting levels that reading them takes. -/

namespace FrontEnd.Program

open FrontEnd.Segment

/-- A word that is no keyword. -/
def IsName (text : String) : Prop :=
  (Segment.word text.toList).Proper ∧ ∀ k : Keyword, k.text.toList ≠ text.toList

theorem isName_iff {text : String} :
    IsName text ↔ Run isWordStart isWordPart text.toList ∧ Keyword.ofText? text = none := by
  refine and_congr_right fun _ => ?_
  simp only [Option.eq_none_iff_forall_ne_some, ne_eq, Keyword.ofText?_eq_some_iff,
    String.toList_inj]

instance (text : String) : Decidable (IsName text) :=
  decidable_of_iff _ isName_iff.symm

/-- The text of a literal of a double: digits with one dot among them that stand for it. -/
def IsFloatText (value : Number.Binary64) (text : List Char) : Prop :=
  (Segment.number text).Proper ∧ '.' ∈ text ∧
    Number.readFloat? (String.ofList text) = some value

def Literal.WellFormed : Literal → Prop
  | int value => 0 ≤ value ∧ value ≤ Number.maxInt
  | float value => ∃ text, IsFloatText value text
  | string text => Escaped text.toList
  | bool _ => True
  | null => True

namespace Expr

def isLink : Expr → Bool
  | var _ _ => true
  | call _ _ _ => true
  | index _ _ _ => true
  | _ => false

mutual

def WellFormed : Expr → Prop
  | binary _ left right => left.WellFormed ∧ right.WellFormed
  | constant value => value.WellFormed
  | declaration name type => IsName name ∧ IsName type.name
  | var name c => IsName name ∧ ChildWellFormed c
  | call name args c => IsName name ∧ ArgsWellFormed args ∧ ChildWellFormed c
  | index name i c => IsName name ∧ i.WellFormed ∧ ChildWellFormed c
  | classRef type c => IsName type.name ∧ type.pointerDepth = 0 ∧ ChildWellFormed c
  | this c => ChildWellFormed c
  | negate value => value.WellFormed
  | inverse value => value.WellFormed

def ArgsWellFormed : List Expr → Prop
  | [] => True
  | e :: es => e.WellFormed ∧ ArgsWellFormed es

def ChildWellFormed : Option Expr → Prop
  | none => True
  | some e => e.isLink = true ∧ e.WellFormed

end

end Expr

namespace Statement

def isBranch : Statement → Bool
  | branch _ _ _ _ => true
  | _ => false

mutual

/-- An expression on its own is what its shape makes it. -/
def WellFormed : Statement → Prop
  | assignment target value =>
    target.isAssignable = true ∧ target.WellFormed ∧ value.WellFormed
  | call name args => IsName name ∧ Expr.ArgsWellFormed args
  | chainCall e => ofExpr e = chainCall e ∧ e.WellFormed
  | branch condition thenPart elsePart continuation =>
    condition.WellFormed ∧ ListWellFormed thenPart ∧ ElseWellFormed elsePart ∧
      ListWellFormed continuation
  | loop condition body => condition.WellFormed ∧ ListWellFormed body
  | block body => ListWellFormed body
  | ret value => ∀ e ∈ value, e.WellFormed
  | increment target => target.isAssignable = true ∧ target.WellFormed
  | decrement target => target.isAssignable = true ∧ target.WellFormed
  | eval e => ofExpr e = eval e ∧ e.WellFormed

/-- What follows an `if` is its continuation, so nothing stands behind it in its list. -/
def ListWellFormed : List Statement → Prop
  | [] => True
  | s :: ss => s.WellFormed ∧ (s.isBranch = true → ss = []) ∧ ListWellFormed ss

def ElseWellFormed : Option (List Statement) → Prop
  | none => True
  | some ss => ListWellFormed ss

end

end Statement

def Attribute.WellFormed (a : Attribute) : Prop :=
  IsName a.name ∧ Expr.ArgsWellFormed a.args

def Parameter.WellFormed (p : Parameter) : Prop :=
  IsName p.name ∧ IsName p.type.name ∧ p.type.isVoid = false

def Privacy.IsAccess (p : Privacy) : Prop :=
  p = .visible ∨ p = .hidden

namespace MethodDecl

structure HeadWellFormed (m : MethodDecl) : Prop where
  attributes : ∀ a ∈ m.attributes, a.WellFormed
  name : IsName m.name
  params : ∀ p ∈ m.params, p.WellFormed
  returns : IsName m.returns.name

/-- A method of a class has a body. -/
def MethodWellFormed (m : MethodDecl) : Prop :=
  m.HeadWellFormed ∧ m.privacy.IsAccess ∧ ∃ body, m.body = some body ∧ Statement.ListWellFormed body

/-- A function of a script has a body, or is foreign and has none. -/
def FunctionWellFormed (m : MethodDecl) : Prop :=
  m.HeadWellFormed ∧ m.isStatic = false ∧
    ((m.privacy = .global ∧ ∃ body, m.body = some body ∧ Statement.ListWellFormed body) ∨
      (m.privacy = .foreign ∧ m.body = none))

end MethodDecl

structure FieldDecl.WellFormed (f : FieldDecl) : Prop where
  attributes : ∀ a ∈ f.attributes, a.WellFormed
  name : IsName f.name
  access : f.privacy.IsAccess
  type : IsName f.type.name

structure ClassDecl.WellFormed (c : ClassDecl) : Prop where
  attributes : ∀ a ∈ c.attributes, a.WellFormed
  name : IsName c.name
  access : c.privacy.IsAccess
  fields : ∀ f ∈ c.fields, f.WellFormed
  methods : ∀ m ∈ c.methods, m.MethodWellFormed

/-- A path has a first name. -/
def PathWellFormed (path : List String) : Prop :=
  path ≠ [] ∧ ∀ text ∈ path, IsName text

instance (path : List String) : Decidable (PathWellFormed path) :=
  inferInstanceAs (Decidable (_ ∧ _))

structure Script.WellFormed (s : Script) : Prop where
  path : PathWellFormed s.path
  imports : ∀ path ∈ s.imports, PathWellFormed path
  classes : ∀ c ∈ s.classes, c.WellFormed
  functions : ∀ m ∈ s.functions, m.FunctionWellFormed

end FrontEnd.Program

def FrontEnd.Parse.Member.WellFormed : Parse.Member → Prop
  | field f => f.WellFormed
  | method m => m.MethodWellFormed

namespace FrontEnd.Grammar

open FrontEnd.Parse FrontEnd.Program

/-- Lexemes, and the nesting levels that reading them takes. -/
structure Writing where
  lexemes : List Segment
  levels : Nat

namespace Writing

def nothing : Writing := ⟨[], 0⟩

def one (s : Segment) : Writing := ⟨[s], 0⟩

def symbol (s : Symbol) : Writing := one (.symbol s)

def keyword (k : Keyword) : Writing := one (.word k.text.toList)

def name (text : String) : Writing := one (.word text.toList)

/-- One behind the other. They stand beside each other, so the deeper one counts. -/
instance : Append Writing := ⟨fun a b => ⟨a.lexemes ++ b.lexemes, max a.levels b.levels⟩⟩

def deeper (w : Writing) : Writing := ⟨w.lexemes, 1 + w.levels⟩

def parens (w : Writing) : Writing := symbol .openParen ++ w ++ symbol .closeParen

def braces (w : Writing) : Writing := symbol .openBrace ++ w.deeper ++ symbol .closeBrace

def text (w : Writing) : String :=
  String.ofList ([' '].intercalate (w.lexemes.map Segment.chars))

def all {α : Type} (f : α → Writing) (as : List α) : Writing :=
  as.foldr (fun a w => f a ++ w) nothing

@[simp] theorem lexemes_append (a b : Writing) : (a ++ b).lexemes = a.lexemes ++ b.lexemes := rfl

@[simp] theorem levels_append (a b : Writing) : (a ++ b).levels = max a.levels b.levels := rfl

@[simp] theorem levels_nothing : nothing.levels = 0 := rfl

@[simp] theorem levels_symbol (s : Symbol) : (symbol s).levels = 0 := rfl

@[simp] theorem levels_keyword (k : Keyword) : (keyword k).levels = 0 := rfl

@[simp] theorem levels_name (text : String) : (name text).levels = 0 := rfl

@[simp] theorem levels_deeper (w : Writing) : w.deeper.levels = 1 + w.levels := rfl

@[simp] theorem levels_parens (w : Writing) : w.parens.levels = w.levels := by simp [parens]

@[simp] theorem levels_braces (w : Writing) : w.braces.levels = 1 + w.levels := by simp [braces]

end Writing

def operatorSymbol : Operator → Symbol
  | .add => .plus
  | .sub => .minus
  | .mul => .star
  | .div => .slash
  | .exp => .power
  | .mod => .percent
  | .eq => .equal
  | .notEq => .notEqual
  | .lt => .less
  | .le => .lessEqual
  | .gt => .greater
  | .ge => .greaterEqual
  | .and => .logicalAnd
  | .or => .logicalOr
  | .xor => .xor
  | .nand => .nand

def operatorLayer : Operator → Layer
  | .or | .xor => .or
  | .and | .nand => .and
  | .eq | .notEq | .lt | .le | .gt | .ge => .cmp
  | .add | .sub => .add
  | .mul | .div | .mod => .mul
  | .exp => .unary

/-- The layers of its operands. Only the power binds to the right. -/
def leftLayer : Operator → Layer
  | .exp => .primary
  | op => operatorLayer op

def rightLayer : Operator → Layer
  | .exp => .unary
  | op => (operatorLayer op).next

/-- The tightest layer in which the expression stands without parentheses. A declaration counts as
loosest: then no multiplication stands behind its type, where it would be read as one of its stars.
-/
def layerOf : Expr → Layer
  | .binary op _ _ => operatorLayer op
  | .declaration _ _ => .or
  | .negate _ => .unary
  | .inverse _ => .unary
  | _ => .primary

/-- What is open when a script is written. -/
structure Style where
  /-- Whether an expression has parentheses that it does not need in a place of that layer. -/
  wraps : Layer → Expr → Bool
  /-- Whether the symbol that counts stands in front of its target. -/
  countsFirst : Expr → Bool
  floatText : Number.Binary64 → List Char
  /-- A double is written as one of its literals if it has any. -/
  isFloatText : ∀ value text, IsFloatText value text → IsFloatText value (floatText value)

open Classical in
noncomputable def Style.plain : Style where
  wraps _ _ := false
  countsFirst _ := false
  floatText value := if h : ∃ text, IsFloatText value text then h.choose else []
  isFloatText value text h := by
    have hex : ∃ text, IsFloatText value text := ⟨text, h⟩
    rw [dif_pos hex]
    exact hex.choose_spec

namespace Style

variable (st : Style)

def literal : Literal → Writing
  | .int value => .one (.number (Nat.toDigits 10 value.toNat))
  | .float value => .one (.number (st.floatText value))
  | .string text => .one (.quoted text.toList)
  | .bool true => .keyword .trueKw
  | .bool false => .keyword .falseKw
  | .null => .keyword .nullKw

/-- An expression in a place of a layer, given how it is written without parentheses around it. -/
def place (l : Layer) (e : Expr) (w : Writing) : Writing :=
  if (layerOf e).power < l.power || st.wraps l e then w.deeper.parens else w

def typeRef (type : TypeRef) : Writing :=
  .symbol .hash ++ .name type.name ++ .all Writing.symbol (List.replicate type.pointerDepth .star)

mutual

def bare : Expr → Writing
  | .binary op left right =>
    -- Only the right operand is read one level further in.
    st.place (leftLayer op) left (bare left) ++ .symbol (operatorSymbol op) ++
      (st.place (rightLayer op) right (bare right)).deeper
  | .constant value => st.literal value
  | .declaration name type => .keyword .localKw ++ .name name ++ typeRef type
  | .var name c => .name name ++ child c
  | .call name es c => .name name ++ (args es).parens ++ child c
  | .index name i c =>
    .name name ++ .symbol .openBracket ++ (st.place .or i (bare i)).deeper ++
      .symbol .closeBracket ++ child c
  | .classRef type c => .symbol .hash ++ .name type.name ++ child c
  | .this c => .keyword .selfKw ++ child c
  | .negate value => .symbol .minus ++ (st.place .unary value (bare value)).deeper
  | .inverse value => .symbol .bang ++ (st.place .unary value (bare value)).deeper

def child : Option Expr → Writing
  | none => .nothing
  | some e => (.symbol .period ++ bare e).deeper

def args : List Expr → Writing
  | [] => .nothing
  | e :: es => (st.place .or e (bare e)).deeper ++ moreArgs es

def moreArgs : List Expr → Writing
  | [] => .nothing
  | e :: es => .symbol .comma ++ (st.place .or e (bare e)).deeper ++ moreArgs es

end

def expr (e : Expr) : Writing :=
  (st.place .or e (st.bare e)).deeper

def counted (s : Symbol) (target : Expr) : Writing :=
  if st.countsFirst target then .symbol s ++ st.expr target ++ .symbol .semicolon
  else st.expr target ++ .symbol s ++ .symbol .semicolon

mutual

def statement : Statement → Writing
  | .assignment target value =>
    st.expr target ++ .symbol .assign ++ st.expr value ++ .symbol .semicolon
  | .call name es => st.expr (.call name es none) ++ .symbol .semicolon
  | .chainCall e => st.expr e ++ .symbol .semicolon
  | .branch condition thenPart elsePart continuation =>
    .keyword .ifKw ++ st.expr condition ++ (statements thenPart).braces ++ elseBranch elsePart ++
      statements continuation
  | .loop condition body => .keyword .whileKw ++ st.expr condition ++ (statements body).braces
  | .block body => (statements body).braces
  | .ret none => .keyword .returnKw ++ .symbol .semicolon
  | .ret (some e) => .keyword .returnKw ++ st.expr e ++ .symbol .semicolon
  | .increment target => st.counted .increment target
  | .decrement target => st.counted .decrement target
  | .eval e => st.expr e ++ .symbol .semicolon

def statements : List Statement → Writing
  | [] => .nothing
  | s :: ss => statement s ++ statements ss

def elseBranch : Option (List Statement) → Writing
  | none => .nothing
  | some ss => .keyword .elseKw ++ (statements ss).braces

end

def attributes (as : List Attribute) : Writing :=
  .all (fun a => .symbol .atSign ++ .name a.name ++ (st.args a.args).parens) as

def parameter (p : Parameter) : Writing :=
  .name p.name ++ typeRef p.type

def parameters : List Parameter → Writing
  | [] => .nothing
  | p :: ps => parameter p ++ .all (fun p => .symbol .comma ++ parameter p) ps

def signature (params : List Parameter) (returns : TypeRef) : Writing :=
  (parameters params).parens ++ typeRef returns

/-- The keyword of an access; the other kinds of privacy have none. -/
def access : Privacy → Writing
  | .visible => .keyword .publicKw
  | .hidden => .keyword .privateKw
  | _ => .nothing

def static : Bool → Writing
  | true => .keyword .staticKw
  | false => .nothing

def body : Option (List Statement) → Writing
  | some ss => (st.statements ss).braces
  | none => .symbol .semicolon

def member : Member → Writing
  | .method m =>
    st.attributes m.attributes ++ access m.privacy ++ static m.isStatic ++ .name m.name ++
      signature m.params m.returns ++ st.body m.body
  | .field f =>
    st.attributes f.attributes ++ access f.privacy ++ static f.isStatic ++ .name f.name ++
      typeRef f.type ++ .symbol .semicolon

def functionKeyword (m : MethodDecl) : Keyword :=
  if m.body.isSome then .funcKw else .foreignKw

def path : List String → Writing
  | [] => .nothing
  | text :: texts => .name text ++ .all (fun text => .symbol .period ++ .name text) texts

end Style

structure ClassLayout where
  attributes : List Attribute
  name : String
  privacy : Privacy
  members : List Member

/-- The class. Its fields, and its methods, are in the order in which they stand. -/
def ClassLayout.decl (c : ClassLayout) : ClassDecl :=
  ⟨c.attributes, c.name, c.privacy, c.members.filterMap Member.field?,
    c.members.filterMap Member.method?⟩

theorem ClassLayout.wellFormed_of_mem {c : ClassLayout} (h : c.decl.WellFormed) :
    ∀ m ∈ c.members, m.WellFormed := by
  intro m hm
  cases m with
  | field f => exact h.fields f (List.mem_filterMap.2 ⟨_, hm, rfl⟩)
  | method m => exact h.methods m (List.mem_filterMap.2 ⟨_, hm, rfl⟩)

inductive Entry where
  | importing (path : List String)
  | defining (c : ClassLayout)
  | function (m : MethodDecl)

namespace Entry

def path? : Entry → Option (List String)
  | importing path => some path
  | _ => none

def class? : Entry → Option ClassDecl
  | defining c => some c.decl
  | _ => none

def function? : Entry → Option MethodDecl
  | function m => some m
  | _ => none

def WellFormed : Entry → Prop
  | importing path => PathWellFormed path
  | defining c => c.decl.WellFormed
  | function m => m.FunctionWellFormed

end Entry

/-- An order for the parts of a script and for the members of its classes: any that keeps imports,
classes, functions, fields and methods each in their own order. -/
structure Arrangement (s : Script) where
  entries : List Entry
  imports : entries.filterMap Entry.path? = s.imports
  classes : entries.filterMap Entry.class? = s.classes
  functions : entries.filterMap Entry.function? = s.functions

theorem Arrangement.wellFormed_of_mem {s : Script} (h : s.WellFormed) (a : Arrangement s) :
    ∀ e ∈ a.entries, e.WellFormed := by
  intro e he
  cases e with
  | importing path =>
    have hmem : path ∈ s.imports := a.imports ▸ List.mem_filterMap.2 ⟨_, he, rfl⟩
    exact h.imports path hmem
  | defining c =>
    have hmem : c.decl ∈ s.classes := a.classes ▸ List.mem_filterMap.2 ⟨_, he, rfl⟩
    exact h.classes c.decl hmem
  | function m =>
    have hmem : m ∈ s.functions := a.functions ▸ List.mem_filterMap.2 ⟨_, he, rfl⟩
    exact h.functions m hmem

def ClassLayout.fieldsFirst (c : ClassDecl) : ClassLayout :=
  ⟨c.attributes, c.name, c.privacy, c.fields.map Member.field ++ c.methods.map Member.method⟩

theorem ClassLayout.decl_fieldsFirst (c : ClassDecl) : (fieldsFirst c).decl = c := by
  simp [decl, fieldsFirst, List.filterMap_map, Function.comp_def, Member.field?, Member.method?,
    List.filterMap_none]

/-- Every script can be arranged: imports first, then classes, then functions. -/
def Arrangement.importsFirst (s : Script) : Arrangement s where
  entries := s.imports.map .importing ++
    (s.classes.map (fun c => .defining (.fieldsFirst c)) ++ s.functions.map .function)
  imports := by
    simp [List.filterMap_map, Function.comp_def, Entry.path?, List.filterMap_none]
  classes := by
    simp [List.filterMap_map, Function.comp_def, Entry.class?, List.filterMap_none,
      ClassLayout.decl_fieldsFirst]
  functions := by
    simp [List.filterMap_map, Function.comp_def, Entry.function?, List.filterMap_none]

namespace Style

variable (st : Style)

def entry : Entry → Writing
  | .importing path => .keyword .importKw ++ Style.path path ++ .symbol .semicolon
  | .defining c =>
    st.attributes c.attributes ++ access c.privacy ++ .keyword .classKw ++ .name c.name ++
      .symbol .openBrace ++ .all st.member c.members ++ .symbol .closeBrace
  | .function m =>
    st.attributes m.attributes ++ .keyword (functionKeyword m) ++ .name m.name ++
      signature m.params m.returns ++ st.body m.body

def script {s : Script} (a : Arrangement s) : Writing :=
  .keyword .namespaceKw ++ Style.path s.path ++ .symbol .semicolon ++ .all st.entry a.entries

end Style

end FrontEnd.Grammar
