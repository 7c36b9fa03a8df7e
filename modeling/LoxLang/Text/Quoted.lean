import LoxLang.Text.Digit
import LoxLang.Text.Invisible

/-!
# `LoxLang.Text.Quoted`: texts in quotes

A text is shown between single quotes, or between double quotes if it
has single quotes only. What would not be seen in it is written as an
escape, and so are the quote and the backslash.
-/

set_option autoImplicit false

namespace LoxLang.Text

/-- An invisible character as an escape. -/
def escapeInvisible (c : Char) : List Char :=
  if c = '\n' then ['\\', 'n']
  else if c = '\r' then ['\\', 'r']
  else if c = '\t' then ['\\', 't']
  else if c.toNat < 0x100 then '\\' :: 'x' :: hexadecimal 2 c.toNat
  else if c.toNat < 0x10000 then '\\' :: 'u' :: hexadecimal 4 c.toNat
  else '\\' :: 'U' :: hexadecimal 8 c.toNat

/-- A character as it stands between quotes of a kind. -/
def quotedChar (quote c : Char) : List Char :=
  if c = quote ∨ c = '\\' then ['\\', c]
  else if isInvisible c then escapeInvisible c
  else [c]

/-- A text in quotes. -/
def quoted (s : List Char) : List Char :=
  let quote := if '\'' ∈ s ∧ '"' ∉ s then '"' else '\''
  quote :: s.flatMap (quotedChar quote) ++ [quote]

end LoxLang.Text
