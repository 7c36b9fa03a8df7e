import LoxLang.Text.Style

/-!
# `LoxLang.Template`: messages with slots

A template is plain text with slots, which take the snippets of the
source that a message is about, in order. This module holds

* `Template.fill`: the filled-in message;
* `Template.spans`: its parts, the snippets in bold;
* `Template.read?`: a template from its written form, in which a pair
  of braces is a slot and a doubled brace stands for itself;
* `Template.escape`: the written form of a text without slots.
-/

set_option autoImplicit false

namespace LoxLang

/-- A part of a template. -/
inductive Template.Part where
  | char (c : Char)
  | slot
deriving DecidableEq, Repr

/-- A text with slots. -/
abbrev Template := List Template.Part

namespace Template

/-- The template that is a text without slots. -/
def ofText (s : String) : Template :=
  s.toList.map .char

/-- The template that is one slot. -/
def slot : Template := [.slot]

/-- The number of slots. -/
def slots (t : Template) : Nat :=
  t.count .slot

/-! ### Filling in -/

/-- A template with its slots filled by snippets in order. A slot for
which no snippet is left stays empty, and so do snippets for which no
slot is left. -/
def fill : Template → List String → String
  | [], _ => ""
  | .char c :: t, snippets => c.toString ++ fill t snippets
  | .slot :: t, [] => fill t []
  | .slot :: t, s :: snippets => s ++ fill t snippets

/-- The parts of a filled-in template, the snippets among them in
bold. -/
def spans : Template → List String → List Span
  | [], _ => []
  | .char c :: t, snippets => Span.plain [c] :: spans t snippets
  | .slot :: t, [] => spans t []
  | .slot :: t, s :: snippets => { style := .bold, text := s.toList } :: spans t snippets

/-! ### The written form -/

/-- A text in which every brace is doubled. -/
def escape (s : List Char) : List Char :=
  s.flatMap fun c => if c = '{' ∨ c = '}' then [c, c] else [c]

/-- The written form of a text without slots. -/
def escaped (s : String) : String :=
  String.ofList (escape s.toList)

/-- The template of a written form, or nothing if a brace in it stands
alone. -/
def read? : List Char → Option Template
  | [] => some []
  | '{' :: '}' :: s => (read? s).map (.slot :: ·)
  | '{' :: '{' :: s => (read? s).map (.char '{' :: ·)
  | '}' :: '}' :: s => (read? s).map (.char '}' :: ·)
  | c :: s => if c = '{' ∨ c = '}' then none else (read? s).map (.char c :: ·)

end Template

end LoxLang
