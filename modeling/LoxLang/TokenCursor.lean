import LoxLang.Grammar

/-!
# `LoxLang.TokenCursor`: reading token by token

A `TokenCursor` is a place in a list of tokens. It can look at the
token ahead, take it, or read a whole construct with one of the
readers of `LoxLang.Grammar`. The token of the end is never taken, and
where a reader fails the cursor stays at the token where it stopped.
-/

set_option autoImplicit false

namespace LoxLang

/-- A place in a list of tokens: those behind it, the nearest first, and
those ahead. -/
structure TokenCursor where
  behind : List Token := []
  ahead : List Token

namespace TokenCursor

/-- The number of tokens behind the cursor. -/
def position (c : TokenCursor) : Nat :=
  c.behind.length

/-- The token ahead. -/
def peek (c : TokenCursor) : Token :=
  c.ahead.headD (endOf [])

/-- The token behind the cursor. At the start of the list that is its
last one. -/
def previous (c : TokenCursor) : Token :=
  (c.behind.head?.or c.ahead.getLast?).getD (endOf [])

/-- Whether the token ahead is that of an end. -/
def isAtEnd (c : TokenCursor) : Bool :=
  c.peek.kind = .eof

/-- Moves over the next `n` tokens. -/
def skip (n : Nat) (c : TokenCursor) : TokenCursor :=
  { behind := (c.ahead.take n).reverse ++ c.behind, ahead := c.ahead.drop n }

/-- Whether the token ahead is of one of the given kinds, and is not that
of an end. -/
def check (kinds : List Token.Kind) (c : TokenCursor) : Bool :=
  !c.isAtEnd && c.peek.kind ∈ kinds

/-- Takes the token ahead unless it is that of an end. -/
def advance (c : TokenCursor) : TokenCursor :=
  if c.isAtEnd then c else c.skip 1

/-- Takes the token ahead if it is of one of the given kinds, and says
whether it was. -/
def accept (kinds : List Token.Kind) (c : TokenCursor) : Bool × TokenCursor :=
  if c.check kinds then (true, c.advance) else (false, c)

/-- Reads with a reader up to the next end, and moves the cursor to where
the reader stopped. -/
def read {α : Type} (reader : (ts : List Token) → Reading α ts.length) (c : TokenCursor) :
    Except Misplaced α × TokenCursor :=
  let ts := bodyOf c.ahead
  match reader ts with
  | .ok p => (.ok p.value, c.skip (ts.length - p.rest.length))
  | .error f => (.error (f.misplaced (endOf c.ahead)), c.skip (ts.length - f.rest.length))

/-- Reads statements up to the next end. -/
def readAll (c : TokenCursor) : Except Misplaced (List Stmt) × TokenCursor :=
  let ts := bodyOf c.ahead
  match Stmt.readAll ts with
  | .ok statements => (.ok statements, c.skip ts.length)
  | .error f => (.error (f.misplaced (endOf c.ahead)), c.skip (ts.length - f.rest.length))

end TokenCursor

end LoxLang
