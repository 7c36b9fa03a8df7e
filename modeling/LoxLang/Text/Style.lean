/-!
# `LoxLang.Text.Style`: painted text

A style is put on a text by terminal codes in front of and behind it
(`Style.wrap`). A `Span` is a piece of text in one style, and `paint`
writes spans out one after another. An empty text gets its codes too.
-/

set_option autoImplicit false

namespace LoxLang

/-- How a span of text is shown. -/
inductive Style where
  | plain
  | bold
  /-- Bold and red. -/
  | alert
deriving DecidableEq, Repr

/-- The terminal codes that switch a style on. -/
def Style.codes : Style → String
  | .plain => ""
  | .bold => "\x1b[1m"
  | .alert => "\x1b[1m\x1b[31m"

/-- The terminal code that switches every style off. -/
def Style.reset : String := "\x1b[0m"

/-- A text with the terminal codes of a style around it. -/
def Style.wrap (style : Style) (text : String) : String :=
  style.codes ++ text ++ Style.reset

/-- A piece of text in one style. -/
structure Span where
  style : Style := .plain
  text : List Char
deriving DecidableEq, Repr

namespace Span

/-- A span in no special style. -/
def plain (text : List Char) : Span :=
  { text }

/-- A span with its terminal codes around it, unless it is plain. -/
def painted (s : Span) : List Char :=
  if s.style = .plain then s.text
  else (s.style.wrap (String.ofList s.text)).toList

/-- Writes spans out one after another, with or without colour. -/
def paint (color : Bool) (spans : List Span) : List Char :=
  spans.flatMap fun s => if color then s.painted else s.text

end Span

end LoxLang
