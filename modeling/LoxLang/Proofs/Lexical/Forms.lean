import LoxLang.Error
import LoxLang.Number.Decimal

/-!
# `LoxLang.Proofs.Lexical.Forms`: the lexical grammar of Lox

The grammar says which texts are pieces of Lox source and which token
each stands for. It does not look at the scanner: its operators,
reserved words and forms are written out here.

```text
gap        ::= " " | "\t" | "\r" | "\n" | "//" (any but "\n")*
operator   ::= one of the twenty in `Lexeme.operators`
string     ::= '"' (any but '"')* '"'
number     ::= digit+ ( "." digit+ )?
word       ::= letter ( letter | digit )*
```

* `Lexeme.Denotes`: the kind and payload of the token that a text is;
* `Piece.Longest`: a piece that no longer piece begins with, in front
  of the text that follows it;
* `Cuts`: a text cut from left to right into longest pieces, with the
  tokens of those that are lexemes;
* `Blocked`: the error where no piece can be cut.
-/

set_option autoImplicit false

namespace LoxLang

/-! ### Lexemes -/

/-- The operators. -/
def Lexeme.operators : List (List Char × Token.Kind) :=
  [(['('], .leftParen), ([')'], .rightParen), (['{'], .leftBrace), (['}'], .rightBrace),
   ([','], .comma), (['.'], .dot), (['-'], .minus), (['+'], .plus), ([';'], .semicolon),
   (['/'], .slash), (['*'], .star), (['%'], .percent), (['!'], .bang),
   (['!', '='], .bangEqual), (['='], .equal), (['=', '='], .equalEqual),
   (['>'], .greater), (['>', '='], .greaterEqual), (['<'], .less),
   (['<', '='], .lessEqual)]

/-- The words that are no identifiers. -/
def Lexeme.reservedWords : List (String × Token.Kind) :=
  [("and", .and), ("class", .class), ("else", .else), ("false", .false), ("for", .for),
   ("fun", .fun), ("if", .if), ("nil", .nil), ("or", .or), ("print", .print),
   ("return", .return), ("super", .super), ("this", .this), ("true", .true),
   ("var", .var), ("while", .while)]

/-- One digit or more. -/
def Lexeme.IsDigits (text : List Char) : Prop :=
  text ≠ [] ∧ ∀ c ∈ text, c.isDigit

/-- A letter or underscore, and then letters, underscores and digits. -/
inductive Lexeme.IsWord : List Char → Prop where
  | intro {c : Char} {tail : List Char} (hhead : c.isAlpha ∨ c = '_')
      (htail : ∀ d ∈ tail, (d.isAlpha ∨ d = '_') ∨ d.isDigit) : IsWord (c :: tail)

/-- A text is a token of a kind with a payload. -/
inductive Lexeme.Denotes : Token.Kind → Value → List Char → Prop where
  | operator {kind : Token.Kind} {text : List Char} (h : (text, kind) ∈ operators) :
      Denotes kind .nil text
  | string {body : List Char} (h : '"' ∉ body) :
      Denotes .string (.string (String.ofList body)) ('"' :: (body ++ ['"']))
  | whole {digits : List Char} (h : IsDigits digits) :
      Denotes .number (.number (Decimal.toFloat ⟨false, Decimal.natOfDigits digits, 0⟩))
        digits
  | fraction {digits places : List Char} (h : IsDigits digits) (hplaces : IsDigits places) :
      Denotes .number
        (.number (Decimal.toFloat
          ⟨false, Decimal.natOfDigits (digits ++ places), -places.length⟩))
        (digits ++ '.' :: places)
  | keyword {kind : Token.Kind} {text : List Char} (h : IsWord text)
      (hreserved : (String.ofList text, kind) ∈ reservedWords) : Denotes kind .nil text
  | identifier {text : List Char} (h : IsWord text)
      (hfree : ∀ kind, (String.ofList text, kind) ∉ reservedWords) :
      Denotes .identifier .nil text

/-! ### Pieces -/

/-- What is ignored between lexemes: a single blank, or a comment, which
does not take the newline behind it. -/
inductive Piece.IsGap : List Char → Prop where
  | blank {c : Char} (h : c ∈ [' ', '\t', '\r', '\n']) : IsGap [c]
  | comment {body : List Char} (h : '\n' ∉ body) : IsGap ('/' :: '/' :: body)

/-- A text is a gap or a lexeme. -/
inductive IsPiece (text : List Char) : Prop where
  | gap (h : Piece.IsGap text)
  | lexeme {kind : Token.Kind} {payload : Value} (h : Lexeme.Denotes kind payload text)

/-- A piece in front of the rest of a text, where the two together begin
with no longer piece. -/
structure Piece.Longest (text rest : List Char) : Prop where
  isPiece : IsPiece text
  longest : ∀ other, other <+: text ++ rest → IsPiece other → other.length ≤ text.length

/-! ### Places -/

/-- The length of the last line of a text, which is the column where the
text behind it begins. -/
def Text.endColumn (before : List Char) : Nat :=
  (before.reverse.takeWhile (· ≠ '\n')).length

/-- The token of a lexeme behind some text, the first line of which has
the given number. It is on the line where it ends. -/
def Lexeme.token (line : Int) (before text : List Char) (kind : Token.Kind)
    (payload : Value) : Token :=
  { kind, payload
    lexeme := String.ofList text
    line := line + (before ++ text).count '\n'
    column := if '\n' ∈ text then none else some (Text.endColumn before) }

/-- The token of the end of a text. -/
def Lexeme.endToken (line : Int) (before : List Char) : Token :=
  Lexeme.token line before [] .eof .nil

/-! ### Texts -/

/-- The first part of a text is cut into longest pieces, which have some
tokens, in front of the rest. -/
inductive Cuts (line : Int) : List Char → List Token → List Char → Prop where
  | start {rest : List Char} : Cuts line [] [] rest
  | gap {before text rest : List Char} {tokens : List Token}
      (h : Cuts line before tokens (text ++ rest)) (hgap : Piece.IsGap text)
      (hlongest : Piece.Longest text rest) : Cuts line (before ++ text) tokens rest
  | lexeme {before text rest : List Char} {tokens : List Token} {kind : Token.Kind}
      {payload : Value} (h : Cuts line before tokens (text ++ rest))
      (hlexeme : Lexeme.Denotes kind payload text) (hlongest : Piece.Longest text rest) :
      Cuts line (before ++ text) (tokens ++ [Lexeme.token line before text kind payload]) rest

/-- No piece can be cut from the front of a text, which stands behind
another: it begins with a quote and has no other, or with a character
that no piece begins with. -/
inductive Blocked (line : Int) (before : List Char) : List Char → Error → Prop where
  | openString {rest : List Char} (h : '"' ∉ rest) :
      -- the message shows what is left of the line
      Blocked line before ('"' :: rest)
        { cause := .lexical true
          template := Template.ofText "unterminated string"
          snippets := [String.ofList (('"' :: rest).takeWhile (· ≠ '\n'))]
          line := some (line + before.count '\n')
          column := some (Text.endColumn before) }
  | stray {c : Char} {rest : List Char} (h : ∀ tail, ¬ IsPiece (c :: tail)) :
      Blocked line before (c :: rest)
        { cause := .lexical false
          template :=
            Template.ofText "unexpected character '" ++ Template.slot ++ Template.ofText "'"
          snippets := [c.toString]
          line := some (line + before.count '\n')
          column := some (Text.endColumn before) }

end LoxLang
