/-! The kinds of tokens. Keywords and symbols have one spelling each, and a text is looked up among
the spellings; names and literals are kinds with many spellings. -/

namespace FrontEnd

inductive Keyword where
  | namespaceKw | importKw | classKw | funcKw | foreignKw | publicKw | privateKw | staticKw
  | localKw | selfKw | returnKw | ifKw | elseKw | whileKw | forKw | inKw | trueKw | falseKw
  | nullKw | constantKw
  deriving DecidableEq

namespace Keyword

def all : List Keyword :=
  [.namespaceKw, .importKw, .classKw, .funcKw, .foreignKw, .publicKw, .privateKw, .staticKw,
    .localKw, .selfKw, .returnKw, .ifKw, .elseKw, .whileKw, .forKw, .inKw, .trueKw, .falseKw,
    .nullKw, .constantKw]

def text : Keyword → String
  | .namespaceKw => "namespace"
  | .importKw => "import"
  | .classKw => "class"
  | .funcKw => "func"
  | .foreignKw => "foreign"
  | .publicKw => "public"
  | .privateKw => "private"
  | .staticKw => "static"
  | .localKw => "local"
  | .selfKw => "self"
  | .returnKw => "return"
  | .ifKw => "if"
  | .elseKw => "else"
  | .whileKw => "while"
  | .forKw => "for"
  | .inKw => "in"
  | .trueKw => "true"
  | .falseKw => "false"
  | .nullKw => "null"
  | .constantKw => "constant"

def label : Keyword → String
  | .namespaceKw => "Namespace"
  | .importKw => "Import"
  | .classKw => "Class"
  | .funcKw => "Function"
  | .foreignKw => "Foreign"
  | .publicKw => "Public"
  | .privateKw => "Private"
  | .staticKw => "Static"
  | .localKw => "Local"
  | .selfKw => "This"
  | .returnKw => "Return"
  | .ifKw => "If"
  | .elseKw => "Else"
  | .whileKw => "While"
  | .forKw => "For"
  | .inKw => "In"
  | .trueKw => "True"
  | .falseKw => "False"
  | .nullKw => "Null"
  | .constantKw => "Constant"

def ofText? (s : String) : Option Keyword :=
  all.find? fun k => k.text = s

end Keyword

inductive Symbol where
  | comma | period | semicolon | openBrace | closeBrace | openParen | closeParen | openBracket
  | closeBracket | hash | atSign | plus | minus | star | slash | percent | caret | greater | less
  | assign | bang | tilde | pipe | ampersand | power | greaterEqual | lessEqual | equal | notEqual
  | logicalOr | logicalAnd | xor | nand | increment | decrement
  deriving DecidableEq

namespace Symbol

def singles : List Symbol :=
  [.comma, .period, .semicolon, .openBrace, .closeBrace, .openParen, .closeParen, .openBracket,
    .closeBracket, .hash, .atSign, .plus, .minus, .star, .slash, .percent, .caret, .greater, .less,
    .assign, .bang, .tilde, .pipe, .ampersand]

/-- The symbols of two characters. They win over the symbol that is their first character. -/
def compounds : List Symbol :=
  [.power, .greaterEqual, .lessEqual, .equal, .notEqual, .logicalOr, .logicalAnd, .xor, .nand,
    .increment, .decrement]

def text : Symbol → String
  | .comma => ","
  | .period => "."
  | .semicolon => ";"
  | .openBrace => "\x7b"
  | .closeBrace => "\x7d"
  | .openParen => "("
  | .closeParen => ")"
  | .openBracket => "["
  | .closeBracket => "]"
  | .hash => "#"
  | .atSign => "@"
  | .plus => "+"
  | .minus => "-"
  | .star => "*"
  | .slash => "/"
  | .percent => "%"
  | .caret => "^"
  | .greater => ">"
  | .less => "<"
  | .assign => "="
  | .bang => "!"
  | .tilde => "~"
  | .pipe => "|"
  | .ampersand => "&"
  | .power => "^^"
  | .greaterEqual => ">="
  | .lessEqual => "<="
  | .equal => "=="
  | .notEqual => "!="
  | .logicalOr => "||"
  | .logicalAnd => "&&"
  | .xor => "^|"
  | .nand => "~&"
  | .increment => "++"
  | .decrement => "--"

def label : Symbol → String
  | .comma => "Comma"
  | .period => "Period"
  | .semicolon => "Semicolon"
  | .openBrace => "OpeningCurlyBraces"
  | .closeBrace => "ClosingCurlyBraces"
  | .openParen => "OpeningParentheses"
  | .closeParen => "ClosingParentheses"
  | .openBracket => "OpeningSquareBrackets"
  | .closeBracket => "ClosingSquareBrackets"
  | .hash => "TypeRef"
  | .atSign => "AttributeMarker"
  | .plus => "Plus"
  | .minus => "Hyphen"
  | .star => "Asterisk"
  | .slash => "ForwardSlash"
  | .percent => "Modulo"
  | .caret => "Caret"
  | .greater => "GreaterThan"
  | .less => "LessThan"
  | .assign => "Assign"
  | .bang => "Not"
  | .tilde => "Tilde"
  | .pipe => "Pipe"
  | .ampersand => "Ampersand"
  | .power => "Exponential"
  | .greaterEqual => "GreaterThanOrEqual"
  | .lessEqual => "LessThanOrEqual"
  | .equal => "Equal"
  | .notEqual => "NotEqual"
  | .logicalOr => "LogicalOr"
  | .logicalAnd => "LogicalAnd"
  | .xor => "Xor"
  | .nand => "Nand"
  | .increment => "Increment"
  | .decrement => "Decrement"

def compound? (s : String) : Option Symbol :=
  compounds.find? fun k => k.text = s

def single? (s : String) : Option Symbol :=
  singles.find? fun k => k.text = s

end Symbol

inductive TokenKind where
  | keyword (k : Keyword)
  | name
  | int
  | float
  | string
  | symbol (s : Symbol)
  deriving DecidableEq

namespace TokenKind

def all : List TokenKind :=
  Keyword.all.map .keyword ++ [.name, .int, .float, .string]
    ++ (Symbol.singles ++ Symbol.compounds).map .symbol

def label : TokenKind → String
  | .keyword k => k.label
  | .name => "Name"
  | .int => "LiteralInt"
  | .float => "LiteralFloat"
  | .string => "LiteralString"
  | .symbol s => s.label

def ofLabel? (s : String) : Option TokenKind :=
  all.find? fun k => k.label = s

def isKeyword : TokenKind → Bool
  | .keyword _ => true
  | _ => false

end TokenKind

namespace Keyword

/-- A keyword is found by its spelling, and by no other text. -/
theorem ofText?_eq_some_iff {s : String} {k : Keyword} : ofText? s = some k ↔ k.text = s := by
  constructor
  · intro h
    simpa using List.find?_some h
  · rintro rfl
    cases k <;> decide

end Keyword

namespace Symbol

theorem text_of_compound? {s : String} {k : Symbol} (h : compound? s = some k) : k.text = s := by
  simpa using List.find?_some h

theorem text_of_single? {s : String} {k : Symbol} (h : single? s = some k) : k.text = s := by
  simpa using List.find?_some h

end Symbol

end FrontEnd
