import LoxLang.Token

/-!
# `LoxLang.Lexeme`: the characters of Lox source

What a character can be in a Lox text: an operator, alone or in front
of an equals sign, a blank, or a part of a number or a word. Letters
and digits are those of ASCII, and the underscore counts as a letter.
-/

set_option autoImplicit false

namespace LoxLang

namespace Lexeme

/-! ### Character classes -/

/-- Whether a character is a decimal digit. -/
def isDigit (c : Char) : Bool :=
  c.isDigit

/-- Whether a character can begin a word. -/
def isLetter (c : Char) : Bool :=
  c.isAlpha || c = '_'

/-- Whether a character can continue a word. -/
def isWordPart (c : Char) : Bool :=
  isLetter c || isDigit c

/-- Whether a character is ignored between lexemes. A newline is too, but it
begins a new line. -/
def isIgnored (c : Char) : Bool :=
  c = ' ' || c = '\r' || c = '\t'

/-! ### Operators -/

/-- The operator that one character is whatever follows it. -/
def single? : Char → Option Token.Kind
  | '(' => some .leftParen
  | ')' => some .rightParen
  | '{' => some .leftBrace
  | '}' => some .rightBrace
  | ',' => some .comma
  | '.' => some .dot
  | '-' => some .minus
  | '+' => some .plus
  | ';' => some .semicolon
  | '*' => some .star
  | '%' => some .percent
  | _ => none

/-- The operators that one character is with an equals sign after it
and alone. -/
def double? : Char → Option (Token.Kind × Token.Kind)
  | '!' => some (.bangEqual, .bang)
  | '=' => some (.equalEqual, .equal)
  | '<' => some (.lessEqual, .less)
  | '>' => some (.greaterEqual, .greater)
  | _ => none

end Lexeme

end LoxLang
