import LoxLang.Value

/-!
# `LoxLang.Token`: the smallest units of Lox source

A token is a piece of source text with its kind and its place. The
module holds the kinds with their spellings, the reserved words, and
the `Token` itself.

* `Token.Kind.text`: an operator or keyword is its own spelling, the
  other kinds have a name;
* `Token.Kind.ofWord`: the keyword that a word is, or an identifier.
-/

set_option autoImplicit false

namespace LoxLang

/-- The kinds of token. -/
inductive Token.Kind where
  | leftParen
  | rightParen
  | leftBrace
  | rightBrace
  | comma
  | dot
  | minus
  | plus
  | semicolon
  | slash
  | star
  | percent
  | bang
  | bangEqual
  | equal
  | equalEqual
  | greater
  | greaterEqual
  | less
  | lessEqual
  | identifier
  | string
  | number
  | and
  | «class»
  | else
  | false
  | for
  | «fun»
  | if
  | nil
  | or
  | print
  | return
  | super
  | this
  | true
  | var
  | while
  | eof
deriving DecidableEq, Repr, Inhabited

namespace Token.Kind

/-- Every kind. -/
def all : List Kind :=
  [.leftParen, .rightParen, .leftBrace, .rightBrace, .comma, .dot, .minus, .plus,
   .semicolon, .slash, .star, .percent, .bang, .bangEqual, .equal, .equalEqual,
   .greater, .greaterEqual, .less, .lessEqual, .identifier, .string, .number, .and,
   .class, .else, .false, .for, .fun, .if, .nil, .or, .print, .return, .super, .this,
   .true, .var, .while, .eof]

/-- The text of a kind. -/
def text : Kind → String
  | .leftParen => "("
  | .rightParen => ")"
  | .leftBrace => "\x7b"
  | .rightBrace => "\x7d"
  | .comma => ","
  | .dot => "."
  | .minus => "-"
  | .plus => "+"
  | .semicolon => ";"
  | .slash => "/"
  | .star => "*"
  | .percent => "%"
  | .bang => "!"
  | .bangEqual => "!="
  | .equal => "="
  | .equalEqual => "=="
  | .greater => ">"
  | .greaterEqual => ">="
  | .less => "<"
  | .lessEqual => "<="
  | .identifier => "identifier"
  | .string => "string"
  | .number => "number"
  | .and => "and"
  | .class => "class"
  | .else => "else"
  | .false => "false"
  | .for => "for"
  | .fun => "fun"
  | .if => "if"
  | .nil => "nil"
  | .or => "or"
  | .print => "print"
  | .return => "return"
  | .super => "super"
  | .this => "this"
  | .true => "true"
  | .var => "var"
  | .while => "while"
  | .eof => "end of input"

/-- The kinds of reserved word. -/
def keywords : List Kind :=
  [.and, .class, .else, .false, .for, .fun, .if, .nil, .or, .print, .return, .super,
   .this, .true, .var, .while]

/-- The kind of a word: that of the reserved word it spells, or an
identifier. -/
def ofWord (word : String) : Kind :=
  (keywords.find? (·.text == word)).getD .identifier

end Token.Kind

/-- A token. The payload is the value of a number or string token and
nil for every other. The column is the offset of the lexeme in its
line; a string that spans lines has none. -/
structure Token where
  kind : Token.Kind
  lexeme : String
  payload : Value := .nil
  line : Int
  column : Option Int := none
deriving Inhabited

/-- A token as it is named in messages: by its lexeme, save for the end
of the input. -/
def Token.text (t : Token) : String :=
  if t.kind = .eof then t.kind.text else t.lexeme

end LoxLang
