import FrontEnd.Parse.Expr

/-! The grammar of expressions. Each layer of operators has a rule of its own, and a derivation is a
tree of rules: it has the tokens it was made of, the expression it stands for, and a nesting, which
counts the groups, operands on the right, arguments and links that stand inside each other. -/

namespace FrontEnd.Grammar

open FrontEnd.Program

abbrev TokenOf (kind : TokenKind) := { t : Token // t.kind = kind }

@[simp]
theorem TokenOf.kind_eq {kind : TokenKind} (t : TokenOf kind) : t.1.kind = kind :=
  t.2

abbrev Mark (s : Symbol) := TokenOf (.symbol s)

/-- The layers of expressions, from the operators that bind loosest to the operands. -/
inductive Layer where
  | or | and | cmp | add | mul | unary | primary
  deriving DecidableEq

namespace Layer

def next : Layer → Layer
  | or => and
  | and => cmp
  | cmp => add
  | add => mul
  | mul => unary
  | unary => primary
  | primary => primary

def operator? : Layer → Symbol → Option Operator
  | or, .logicalOr => some .or
  | or, .xor => some .xor
  | and, .logicalAnd => some .and
  | and, .nand => some .nand
  | cmp, .equal => some .eq
  | cmp, .notEqual => some .notEq
  | cmp, .less => some .lt
  | cmp, .lessEqual => some .le
  | cmp, .greater => some .gt
  | cmp, .greaterEqual => some .ge
  | add, .plus => some .add
  | add, .minus => some .sub
  | mul, .star => some .mul
  | mul, .slash => some .div
  | mul, .percent => some .mod
  | _, _ => none

end Layer

structure TypeForm where
  hash : Mark .hash
  name : TokenOf .name
  stars : List (Mark .star)

namespace TypeForm

def tokens (f : TypeForm) : List Token :=
  f.hash.1 :: f.name.1 :: f.stars.map Subtype.val

def value (f : TypeForm) : TypeRef :=
  ⟨f.name.1.text, f.stars.length⟩

end TypeForm

/-- The literal that a token is by itself. Numbers that are out of range are none. -/
def literal? (t : Token) : Option Literal :=
  match t.kind with
  | .int => (Number.readInt? t.text).map .int
  | .float => (Number.readFloat? t.text).map .float
  | .string => some (.string t.text)
  | .keyword .trueKw => some (.bool true)
  | .keyword .falseKw => some (.bool false)
  | .keyword .nullKw => some .null
  | _ => none

inductive Phrase where
  | expr (l : Layer)
  /-- What a chain of references starts with. -/
  | root
  | link
  /-- Periods and links. -/
  | links
  | args
  /-- Commas and arguments. -/
  | moreArgs

/-- What a phrase stands for. A link lacks what follows it in the chain. -/
@[reducible]
def Phrase.Value : Phrase → Type
  | expr _ => Expr
  | root => Option Expr → Expr
  | link => Option Expr → Expr
  | links => Option Expr
  | args => List Expr
  | moreArgs => List Expr

inductive Derivation : Phrase → Type where
  /-- `or ::= and`, and so on down to `unary ::= primary`. -/
  | next {l : Layer} (h : l ≠ .primary) (d : Derivation (.expr l.next)) : Derivation (.expr l)
  /-- `or ::= or '||' and`, and so on for the operators that bind to the left. -/
  | binary {l : Layer} {s : Symbol} {op : Operator} (left : Derivation (.expr l)) (mark : Mark s)
      (h : l.operator? s = some op) (right : Derivation (.expr l.next)) : Derivation (.expr l)
  /-- `unary ::= primary '^^' unary` -/
  | power (base : Derivation (.expr .primary)) (mark : Mark .power)
      (exponent : Derivation (.expr .unary)) : Derivation (.expr .unary)
  /-- `unary ::= '-' unary` -/
  | negate (mark : Mark .minus) (d : Derivation (.expr .unary)) : Derivation (.expr .unary)
  /-- `unary ::= '!' unary` -/
  | inverse (mark : Mark .bang) (d : Derivation (.expr .unary)) : Derivation (.expr .unary)
  | literal {t : Token} {value : Literal} (h : literal? t = some value) :
      Derivation (.expr .primary)
  /-- `primary ::= '(' or ')'` -/
  | group (opening : Mark .openParen) (d : Derivation (.expr .or)) (closing : Mark .closeParen) :
      Derivation (.expr .primary)
  /-- `primary ::= 'local' NAME typeref` -/
  | declaration (mark : TokenOf (.keyword .localKw)) (name : TokenOf .name) (type : TypeForm) :
      Derivation (.expr .primary)
  /-- `primary ::= root ('.' link)*` -/
  | chain (root : Derivation .root) (links : Derivation .links) : Derivation (.expr .primary)
  | selfRoot (mark : TokenOf (.keyword .selfKw)) : Derivation .root
  | typeRoot (hash : Mark .hash) (name : TokenOf .name) : Derivation .root
  | linkRoot (link : Derivation .link) : Derivation .root
  | var (name : TokenOf .name) : Derivation .link
  /-- `link ::= NAME '(' args ')'` -/
  | call (name : TokenOf .name) (opening : Mark .openParen) (args : Derivation .args)
      (closing : Mark .closeParen) : Derivation .link
  /-- `link ::= NAME '[' or ']'` -/
  | index (name : TokenOf .name) (opening : Mark .openBracket) (d : Derivation (.expr .or))
      (closing : Mark .closeBracket) : Derivation .link
  | noLinks : Derivation .links
  | dot (mark : Mark .period) (link : Derivation .link) (links : Derivation .links) :
      Derivation .links
  | noArgs : Derivation .args
  | someArgs (first : Derivation (.expr .or)) (more : Derivation .moreArgs) : Derivation .args
  | noMoreArgs : Derivation .moreArgs
  /-- A comma may stand behind the last argument. -/
  | lastComma (mark : Mark .comma) : Derivation .moreArgs
  | nextArg (mark : Mark .comma) (arg : Derivation (.expr .or)) (more : Derivation .moreArgs) :
      Derivation .moreArgs

namespace Derivation

@[simp]
def tokens {p : Phrase} : Derivation p → List Token
  | next _ d => d.tokens
  | binary left mark _ right => left.tokens ++ mark.1 :: right.tokens
  | power base mark exponent => base.tokens ++ mark.1 :: exponent.tokens
  | negate mark d => mark.1 :: d.tokens
  | inverse mark d => mark.1 :: d.tokens
  | @literal t _ _ => [t]
  | group opening d closing => opening.1 :: d.tokens ++ [closing.1]
  | declaration mark name type => mark.1 :: name.1 :: type.tokens
  | chain root links => root.tokens ++ links.tokens
  | selfRoot mark => [mark.1]
  | typeRoot hash name => [hash.1, name.1]
  | linkRoot link => link.tokens
  | var name => [name.1]
  | call name opening args closing => name.1 :: opening.1 :: args.tokens ++ [closing.1]
  | index name opening d closing => name.1 :: opening.1 :: d.tokens ++ [closing.1]
  | noLinks => []
  | dot mark link links => mark.1 :: link.tokens ++ links.tokens
  | noArgs => []
  | someArgs first more => first.tokens ++ more.tokens
  | noMoreArgs => []
  | lastComma mark => [mark.1]
  | nextArg mark arg more => mark.1 :: arg.tokens ++ more.tokens

/-- What the phrase stands for. Parentheses leave no trace. -/
def value {p : Phrase} : Derivation p → p.Value
  | next _ d => d.value
  | @binary _ _ op left _ _ right => Expr.binary op left.value right.value
  | power base _ exponent => Expr.binary .exp base.value exponent.value
  | negate _ d => Expr.negate d.value
  | inverse _ d => Expr.inverse d.value
  | @literal _ value _ => Expr.constant value
  | group _ d _ => d.value
  | declaration _ name type => Expr.declaration name.1.text type.value
  | chain root links => root.value links.value
  | selfRoot _ => Expr.this
  | typeRoot _ name => Expr.classRef ⟨name.1.text, 0⟩
  | linkRoot link => link.value
  | var name => Expr.var name.1.text
  | call name _ args _ => Expr.call name.1.text args.value
  | index name _ d _ => Expr.index name.1.text d.value
  | noLinks => none
  | dot _ link links => some (link.value links.value)
  | noArgs => []
  | someArgs first more => first.value :: more.value
  | noMoreArgs => []
  | lastComma _ => []
  | nextArg _ arg more => arg.value :: more.value

/-- How deep expressions and links stand inside each other. The left operand of an operator stands
beside it, all other parts of a phrase stand one level further in. -/
@[simp]
def nesting {p : Phrase} : Derivation p → Nat
  | next _ d => d.nesting
  | binary left _ _ right => max left.nesting (1 + right.nesting)
  | power base _ exponent => max base.nesting (1 + exponent.nesting)
  | negate _ d => 1 + d.nesting
  | inverse _ d => 1 + d.nesting
  | literal _ => 0
  | group _ d _ => 1 + d.nesting
  | declaration _ _ _ => 0
  | chain root links => max root.nesting links.nesting
  | selfRoot _ => 0
  | typeRoot _ _ => 0
  | linkRoot link => link.nesting
  | var _ => 0
  | call _ _ args _ => args.nesting
  | index _ _ d _ => 1 + d.nesting
  | noLinks => 0
  | dot _ link links => 1 + max link.nesting links.nesting
  | noArgs => 0
  | someArgs first more => max (1 + first.nesting) more.nesting
  | noMoreArgs => 0
  | lastComma _ => 0
  | nextArg _ arg more => max (1 + arg.nesting) more.nesting

/-- No type of a declaration in the phrase has a multiplication right behind it, when `rest` stands
behind the phrase. Such a star would be read as a star of the type. -/
def Separated {p : Phrase} : Derivation p → List Token → Prop
  | next _ d, rest => d.Separated rest
  | binary left mark _ right, rest =>
    left.Separated (mark.1 :: (right.tokens ++ rest)) ∧ right.Separated rest
  | power base mark exponent, rest =>
    base.Separated (mark.1 :: (exponent.tokens ++ rest)) ∧ exponent.Separated rest
  | negate _ d, rest => d.Separated rest
  | inverse _ d, rest => d.Separated rest
  | literal _, _ => True
  | group _ d closing, rest => d.Separated (closing.1 :: rest)
  | declaration _ _ _, rest => ∀ t ∈ rest.head?, t.kind ≠ .symbol .star
  | chain root links, rest => root.Separated (links.tokens ++ rest) ∧ links.Separated rest
  | selfRoot _, _ => True
  | typeRoot _ _, _ => True
  | linkRoot link, rest => link.Separated rest
  | var _, _ => True
  | call _ _ args closing, rest => args.Separated (closing.1 :: rest)
  | index _ _ d closing, rest => d.Separated (closing.1 :: rest)
  | noLinks, _ => True
  | dot _ link links, rest => link.Separated (links.tokens ++ rest) ∧ links.Separated rest
  | noArgs, _ => True
  | someArgs first more, rest => first.Separated (more.tokens ++ rest) ∧ more.Separated rest
  | noMoreArgs, _ => True
  | lastComma _, _ => True
  | nextArg _ arg more, rest => arg.Separated (more.tokens ++ rest) ∧ more.Separated rest

end Derivation

end FrontEnd.Grammar
