import FrontEnd.Parse.Script
import FrontEnd.Proofs.ExprSteps
import FrontEnd.Proofs.Grammar

/-! The grammar of statements and scripts. A form is a piece of a script as it is written: it has the
tokens it is made of, what it stands for, and the number of nesting levels that reading it takes. In
a form every token has its place, so whatever a form stands for comes from its own tokens. -/

namespace FrontEnd.Grammar

open FrontEnd.Parse FrontEnd.Parser FrontEnd.Program

theorem notAt_append_mono {kind : TokenKind} {rest rest' : List Token}
    (h : NotAt kind rest → NotAt kind rest') (ts : List Token) :
    NotAt kind (ts ++ rest) → NotAt kind (ts ++ rest') := by
  cases ts with
  | nil => exact h
  | cons t ts => exact id

theorem notAt_append_congr {kind : TokenKind} {rest rest' : List Token}
    (h : NotAt kind rest ↔ NotAt kind rest') (ts : List Token) :
    NotAt kind (ts ++ rest) ↔ NotAt kind (ts ++ rest') :=
  ⟨notAt_append_mono h.1 ts, notAt_append_mono h.2 ts⟩

/-- What stands behind a phrase can be replaced, if that puts no star there. -/
theorem Derivation.Separated.mono {p : Phrase} {d : Derivation p} {rest rest' : List Token}
    (hd : d.Separated rest)
    (h : NotAt (.symbol .star) rest → NotAt (.symbol .star) rest') : d.Separated rest' := by
  induction d generalizing rest rest' with
  | next _ d ih => exact ih hd h
  | binary left mark _ right ihl ihr => exact ⟨ihl hd.1 id, ihr hd.2 h⟩
  | power base mark exponent ihb ihe => exact ⟨ihb hd.1 id, ihe hd.2 h⟩
  | negate _ d ih => exact ih hd h
  | inverse _ d ih => exact ih hd h
  | declaration mark name type => exact h hd
  | chain root links ihr ihl => exact ⟨ihr hd.1 (notAt_append_mono h _), ihl hd.2 h⟩
  | linkRoot link ih => exact ih hd h
  | dot mark link links ih ihl => exact ⟨ih hd.1 (notAt_append_mono h _), ihl hd.2 h⟩
  | someArgs first more ihf ihm => exact ⟨ihf hd.1 (notAt_append_mono h _), ihm hd.2 h⟩
  | nextArg mark arg more iha ihm => exact ⟨iha hd.1 (notAt_append_mono h _), ihm hd.2 h⟩
  | group opening d closing ih => exact ih hd id
  | call name opening args closing ih => exact ih hd id
  | index name opening d closing ih => exact ih hd id
  | _ => trivial

/-- Of what stands behind a phrase, only whether it starts with a star matters. -/
theorem Derivation.separated_congr {p : Phrase} (d : Derivation p) {rest rest' : List Token}
    (h : NotAt (.symbol .star) rest ↔ NotAt (.symbol .star) rest') :
    d.Separated rest ↔ d.Separated rest' :=
  ⟨fun hd => hd.mono h.1, fun hd => hd.mono h.2⟩

/-- Nothing behind the phrase is like anything that is no star. -/
theorem Derivation.separated_nil_iff {p : Phrase} (d : Derivation p) {rest : List Token}
    (h : NotAt (.symbol .star) rest) : d.Separated [] ↔ d.Separated rest :=
  d.separated_congr (iff_of_true (notAt_nil _) h)

abbrev ExprForm := { d : Derivation (.expr .or) // d.Separated [] }

namespace ExprForm

def tokens (e : ExprForm) : List Token :=
  e.1.tokens

def value (e : ExprForm) : Expr :=
  e.1.value

def levels (e : ExprForm) : Nat :=
  1 + e.1.nesting

end ExprForm

def counting? : Symbol → Option (Expr → Statement)
  | .increment => some .increment
  | .decrement => some .decrement
  | _ => none

inductive Clause where
  /-- A statement that is no `if`. -/
  | statement
  /-- An `if` without what follows it in its list. -/
  | branches
  | items
  | block

@[reducible]
def Clause.Value : Clause → Type
  | statement => Statement
  | branches => Branches
  | items => List Statement
  | block => List Statement

inductive Form : Clause → Type where
  /-- `statement ::= 'while' expr block` -/
  | whileLoop (mark : TokenOf (.keyword .whileKw)) (condition : ExprForm) (body : Form .block) :
      Form .statement
  /-- `statement ::= block` -/
  | inner (body : Form .block) : Form .statement
  /-- `statement ::= 'return' [expr] ';'` -/
  | ret (mark : TokenOf (.keyword .returnKw)) (value : Option ExprForm) (stop : Mark .semicolon) :
      Form .statement
  /-- `statement ::= ('++' | '--') expr ';'` -/
  | countFirst {s : Symbol} {make : Expr → Statement} (mark : Mark s)
      (h : counting? s = some make) (target : ExprForm) (ht : target.value.isAssignable = true)
      (stop : Mark .semicolon) : Form .statement
  /-- `statement ::= expr ('++' | '--') ';'` -/
  | countLast {s : Symbol} {make : Expr → Statement} (target : ExprForm)
      (ht : target.value.isAssignable = true) (mark : Mark s) (h : counting? s = some make)
      (stop : Mark .semicolon) : Form .statement
  /-- `statement ::= expr '=' expr ';'` -/
  | assign (target : ExprForm) (ht : target.value.isAssignable = true) (mark : Mark .assign)
      (value : ExprForm) (stop : Mark .semicolon) : Form .statement
  /-- `statement ::= expr ';'` -/
  | bare (e : ExprForm) (stop : Mark .semicolon) : Form .statement
  /-- `if ::= 'if' expr block` -/
  | ifOnly (mark : TokenOf (.keyword .ifKw)) (condition : ExprForm) (thenPart : Form .block) :
      Form .branches
  /-- `if ::= 'if' expr block 'else' block` -/
  | ifElse (mark : TokenOf (.keyword .ifKw)) (condition : ExprForm) (thenPart : Form .block)
      (mark' : TokenOf (.keyword .elseKw)) (elsePart : Form .block) : Form .branches
  /-- `if ::= 'if' expr block 'else' if` -/
  | ifElseIf (mark : TokenOf (.keyword .ifKw)) (condition : ExprForm) (thenPart : Form .block)
      (mark' : TokenOf (.keyword .elseKw)) (elsePart : Form .branches) : Form .branches
  | noItems : Form .items
  | plain (s : Form .statement) (rest : Form .items) : Form .items
  | branch (b : Form .branches) (rest : Form .items) : Form .items
  /-- `block ::= '{' item* '}'` -/
  | braces (opening : Mark .openBrace) (body : Form .items) (closing : Mark .closeBrace) :
      Form .block

namespace Form

@[simp]
def tokens {c : Clause} : Form c → List Token
  | whileLoop mark condition body => mark.1 :: condition.tokens ++ body.tokens
  | inner body => body.tokens
  | ret mark none stop => [mark.1, stop.1]
  | ret mark (some value) stop => mark.1 :: value.tokens ++ [stop.1]
  | countFirst mark _ target _ stop => mark.1 :: target.tokens ++ [stop.1]
  | countLast target _ mark _ stop => target.tokens ++ [mark.1, stop.1]
  | assign target _ mark value stop => target.tokens ++ mark.1 :: value.tokens ++ [stop.1]
  | bare e stop => e.tokens ++ [stop.1]
  | ifOnly mark condition thenPart => mark.1 :: condition.tokens ++ thenPart.tokens
  | ifElse mark condition thenPart mark' elsePart =>
    mark.1 :: condition.tokens ++ thenPart.tokens ++ mark'.1 :: elsePart.tokens
  | ifElseIf mark condition thenPart mark' elsePart =>
    mark.1 :: condition.tokens ++ thenPart.tokens ++ mark'.1 :: elsePart.tokens
  | noItems => []
  | plain s rest => s.tokens ++ rest.tokens
  | branch b rest => b.tokens ++ rest.tokens
  | braces opening body closing => opening.1 :: body.tokens ++ [closing.1]

/-- What the clause stands for. What follows an `if` in its list is its continuation, and the `if`
behind an `else` has none. -/
def value {c : Clause} : Form c → c.Value
  | whileLoop _ condition body => Statement.loop condition.value body.value
  | inner body => Statement.block body.value
  | ret _ value _ => Statement.ret (value.map ExprForm.value)
  | @countFirst _ make _ _ target _ _ => make target.value
  | @countLast _ make target _ _ _ _ => make target.value
  | assign target _ _ value _ => Statement.assignment target.value value.value
  | bare e _ => Statement.ofExpr e.value
  | ifOnly _ condition thenPart => ⟨condition.value, thenPart.value, none⟩
  | ifElse _ condition thenPart _ elsePart =>
    ⟨condition.value, thenPart.value, some elsePart.value⟩
  | ifElseIf _ condition thenPart _ elsePart =>
    ⟨condition.value, thenPart.value, some [Branches.toStatement elsePart.value []]⟩
  | noItems => []
  | plain s rest => s.value :: rest.value
  | branch b rest => [Branches.toStatement b.value rest.value]
  | braces _ body _ => body.value

/-- The nesting levels that the clause takes. A block and the `if` behind an `else` take one more
than what is in them. -/
@[simp]
def levels {c : Clause} : Form c → Nat
  | whileLoop _ condition body => max condition.levels body.levels
  | inner body => body.levels
  | ret _ none _ => 0
  | ret _ (some value) _ => value.levels
  | countFirst _ _ target _ _ => target.levels
  | countLast target _ _ _ _ => target.levels
  | assign target _ _ value _ => max target.levels value.levels
  | bare e _ => e.levels
  | ifOnly _ condition thenPart => max condition.levels thenPart.levels
  | ifElse _ condition thenPart _ elsePart =>
    max (max condition.levels thenPart.levels) elsePart.levels
  | ifElseIf _ condition thenPart _ elsePart =>
    max (max condition.levels thenPart.levels) (1 + elsePart.levels)
  | noItems => 0
  | plain s rest => max s.levels rest.levels
  | branch b rest => max b.levels rest.levels
  | braces _ body _ => 1 + body.levels

end Form

def levelsOf {α : Type} (levels : α → Nat) (fs : List α) : Nat :=
  fs.foldr (fun f n => max (levels f) n) 0

/-- Forms that take no level take none together. -/
theorem levelsOf_zero {α : Type} (fs : List α) : levelsOf (fun _ => 0) fs = 0 := by
  induction fs with
  | nil => rfl
  | cons f fs ih => exact (Nat.zero_max _).trans ih

/-- `path ::= NAME ('.' NAME)*` -/
structure PathForm where
  first : TokenOf .name
  more : List (Mark .period × TokenOf .name)

namespace PathForm

def tokens (p : PathForm) : List Token :=
  p.first.1 :: p.more.flatMap fun s => [s.1.1, s.2.1]

def value (p : PathForm) : List String :=
  p.first.1.text :: p.more.map fun s => s.2.1.text

end PathForm

/-- `attribute ::= '@' NAME '(' args ')'` -/
structure AttributeForm where
  mark : Mark .atSign
  name : TokenOf .name
  opening : Mark .openParen
  args : { d : Derivation .args // d.Separated [] }
  closing : Mark .closeParen

namespace AttributeForm

def tokens (a : AttributeForm) : List Token :=
  a.mark.1 :: a.name.1 :: a.opening.1 :: a.args.1.tokens ++ [a.closing.1]

def value (a : AttributeForm) : Attribute :=
  ⟨a.name.1.text, a.args.1.value⟩

def levels (a : AttributeForm) : Nat :=
  a.args.1.nesting

end AttributeForm

/-- `parameter ::= NAME typeref`, where the type has values. -/
structure ParameterForm where
  name : TokenOf .name
  type : TypeForm
  solid : type.value.isVoid = false

namespace ParameterForm

def tokens (p : ParameterForm) : List Token :=
  p.name.1 :: p.type.tokens

def value (p : ParameterForm) : Parameter :=
  ⟨p.name.1.text, p.type.value⟩

end ParameterForm

/-- What stands between the parentheses of a function: nothing, or parameters with commas between
them and perhaps one behind the last. -/
inductive ParametersForm where
  | none
  | some (first : ParameterForm) (more : List (Mark .comma × ParameterForm))
      (last : Option (Mark .comma))

namespace ParametersForm

def tokens : ParametersForm → List Token
  | none => []
  | some first more last =>
    first.tokens ++ more.flatMap (fun p => p.1.1 :: p.2.tokens) ++ last.toList.map Subtype.val

def value : ParametersForm → List Parameter
  | none => []
  | some first more _ => first.value :: more.map fun p => p.2.value

end ParametersForm

/-- `signature ::= '(' parameters ')' typeref` -/
structure SignatureForm where
  opening : Mark .openParen
  params : ParametersForm
  closing : Mark .closeParen
  returns : TypeForm

namespace SignatureForm

def tokens (s : SignatureForm) : List Token :=
  s.opening.1 :: s.params.tokens ++ s.closing.1 :: s.returns.tokens

end SignatureForm

def access? : TokenKind → Option Privacy
  | .keyword .publicKw => some .visible
  | .keyword .privateKw => some .hidden
  | _ => none

/-- `access ::= 'public' | 'private'` -/
structure AccessForm where
  token : Token
  value : Privacy
  spelled : access? token.kind = some value

inductive MemberForm where
  /-- `member ::= attribute* access ['static'] NAME signature block` -/
  | method (attributes : List AttributeForm) (access : AccessForm)
      (static : Option (TokenOf (.keyword .staticKw))) (name : TokenOf .name)
      (signature : SignatureForm) (body : Form .block)
  /-- `member ::= attribute* access ['static'] NAME typeref ';'` -/
  | field (attributes : List AttributeForm) (access : AccessForm)
      (static : Option (TokenOf (.keyword .staticKw))) (name : TokenOf .name) (type : TypeForm)
      (stop : Mark .semicolon)

namespace MemberForm

/-- The tokens in front of what tells a method from a field. -/
def head (attributes : List AttributeForm) (access : AccessForm)
    (static : Option (TokenOf (.keyword .staticKw))) (name : TokenOf .name) : List Token :=
  attributes.flatMap AttributeForm.tokens ++ access.token :: static.toList.map Subtype.val
    ++ [name.1]

def tokens : MemberForm → List Token
  | method attributes access static name signature body =>
    head attributes access static name ++ signature.tokens ++ body.tokens
  | field attributes access static name type stop =>
    head attributes access static name ++ type.tokens ++ [stop.1]

def value : MemberForm → Member
  | method attributes access static name signature body =>
    .method ⟨attributes.map AttributeForm.value, name.1.text, access.value, static.isSome,
      signature.params.value, signature.returns.value, some body.value⟩
  | field attributes access static name type _ =>
    .field ⟨attributes.map AttributeForm.value, name.1.text, access.value, static.isSome,
      type.value⟩

def levels : MemberForm → Nat
  | method attributes _ _ _ _ body => max (levelsOf AttributeForm.levels attributes) body.levels
  | field attributes _ _ _ _ _ => levelsOf AttributeForm.levels attributes

end MemberForm

inductive PartForm where
  /-- `item ::= 'import' path ';'` -/
  | importing (mark : TokenOf (.keyword .importKw)) (path : PathForm) (stop : Mark .semicolon)
  /-- `item ::= attribute* 'func' NAME signature block` -/
  | function (attributes : List AttributeForm) (mark : TokenOf (.keyword .funcKw))
      (name : TokenOf .name) (signature : SignatureForm) (body : Form .block)
  /-- `item ::= attribute* 'foreign' NAME signature ';'` -/
  | foreign (attributes : List AttributeForm) (mark : TokenOf (.keyword .foreignKw))
      (name : TokenOf .name) (signature : SignatureForm) (stop : Mark .semicolon)
  /-- `item ::= attribute* access 'class' NAME '{' member* '}'` -/
  | defining (attributes : List AttributeForm) (access : AccessForm)
      (mark : TokenOf (.keyword .classKw)) (name : TokenOf .name) (opening : Mark .openBrace)
      (members : List MemberForm) (closing : Mark .closeBrace)

namespace PartForm

def tokens : PartForm → List Token
  | importing mark path stop => mark.1 :: path.tokens ++ [stop.1]
  | function attributes mark name signature body =>
    attributes.flatMap AttributeForm.tokens ++ mark.1 :: name.1 :: signature.tokens ++ body.tokens
  | foreign attributes mark name signature stop =>
    attributes.flatMap AttributeForm.tokens ++ mark.1 :: name.1 :: signature.tokens ++ [stop.1]
  | defining attributes access mark name opening members closing =>
    attributes.flatMap AttributeForm.tokens ++ access.token :: mark.1 :: name.1 :: opening.1 ::
      members.flatMap MemberForm.tokens ++ [closing.1]

/-- The definition that the attributes in front of it belong to, or the import. -/
def value : PartForm → Part
  | importing _ path _ => .importing path.value
  | function attributes _ name signature body =>
    .function ⟨attributes.map AttributeForm.value, name.1.text, .global, false,
      signature.params.value, signature.returns.value, some body.value⟩
  | foreign attributes _ name signature _ =>
    .function ⟨attributes.map AttributeForm.value, name.1.text, .foreign, false,
      signature.params.value, signature.returns.value, none⟩
  | defining attributes access _ name _ members _ =>
    .defining ⟨attributes.map AttributeForm.value, name.1.text, access.value,
      (members.map MemberForm.value).filterMap Member.field?,
      (members.map MemberForm.value).filterMap Member.method?⟩

def levels : PartForm → Nat
  | importing _ _ _ => 0
  | function attributes _ _ _ body => max (levelsOf AttributeForm.levels attributes) body.levels
  | foreign attributes _ _ _ _ => levelsOf AttributeForm.levels attributes
  | defining attributes _ _ _ _ members _ =>
    max (levelsOf AttributeForm.levels attributes) (levelsOf MemberForm.levels members)

end PartForm

/-- `script ::= 'namespace' path ';' item*` -/
structure ScriptForm where
  mark : TokenOf (.keyword .namespaceKw)
  path : PathForm
  stop : Mark .semicolon
  parts : List PartForm

namespace ScriptForm

def tokens (s : ScriptForm) : List Token :=
  s.mark.1 :: s.path.tokens ++ s.stop.1 :: s.parts.flatMap PartForm.tokens

/-- The script: imports, classes and functions are each in the order in which they are written. -/
def value (s : ScriptForm) : Script :=
  Part.toScript s.path.value (s.parts.map PartForm.value)

def levels (s : ScriptForm) : Nat :=
  levelsOf PartForm.levels s.parts

end ScriptForm

end FrontEnd.Grammar
