import LoxLang.Template
import LoxLang.Token

/-!
# `LoxLang.Error`: what is reported when a program is at fault

An `Error` is a message template with the snippets of the source that
fill it, the place it is about, and the cause. The first snippet is
the one that a diagnosis points at. Errors of the library itself are
marked as internal, and an error can ask for no diagnosis.

Errors are made from drafts, in which the template is still written out.
* `Error.Draft.error?`: the error of a draft, if the message can be
  filled in;
* `Error.message`, `Error.highlighted`: the message, and the message
  with its snippets in bold.
-/

set_option autoImplicit false

namespace LoxLang

/-- What brought an error about. -/
inductive Error.Cause where
  | general
  /-- The text cannot be cut into tokens. More text might help if it is
  unterminated. -/
  | lexical (unterminated : Bool)
  /-- Something else was expected where a token stands. -/
  | grammar (found : Token) (expected : String)
  /-- A statement failed when it was run, at a token if one is known. -/
  | execution (token : Option Token)

/-- A fault of a program, with a message template in some form. -/
structure Error.With (T : Type) where
  cause : Error.Cause := .general
  template : T
  snippets : List String := [""]
  line : Option Int := none
  column : Option Int := none
  diagnosis : Bool := true
  internal : Bool := false

/-- A fault of a program, to be shown to the user. -/
abbrev Error := Error.With Template

/-- A fault of a program, the template of which is written out. -/
abbrev Error.Draft := Error.With String

/-! ### Making errors -/

namespace Error.With

variable {T U : Type}

/-- The fault with its template in another form. -/
def withTemplate (template : U) (e : With T) : With U :=
  { e with template }

/-- An error without a place to point at. -/
def bare (template : T) (snippets : List String) : With T :=
  { template, snippets, diagnosis := false }

/-- An error of the library itself. -/
def fromWithin (template : T) (snippets : List String) : With T :=
  { template, snippets, internal := true }

/-- The error of a statement that failed at a token, about the given
snippets, or else about the token's lexeme. -/
def execution (template : T) (snippets : Option (List String)) (token : Option Token) : With T :=
  { cause := .execution token
    template
    snippets := snippets.getD [(token.map (·.lexeme)).getD ""]
    line := token.map (·.line)
    column := token.bind (·.column) }

end Error.With

namespace Error

/-! ### Drafts -/

namespace Draft

/-- The error that something else was expected where a token stands. A
token without text, such as the end of the input, is named instead of
shown, and there is nothing to point at. -/
def expected (what : String) (found : Token) : Draft :=
  let lead := "expected " ++ Template.escaped what ++ ", got "
  if found.lexeme = "" then
    { cause := .grammar found what
      template := lead ++ Template.escaped found.text
      line := some found.line
      diagnosis := false }
  else
    { cause := .grammar found what
      template := lead ++ "'\x7b\x7d'"
      snippets := [found.lexeme]
      line := some found.line
      column := found.column }

/-- The template that is written out, if it can be read. -/
def template? (d : Draft) : Option Template :=
  Template.read? d.template.toList

/-- The error of a draft. There is none if the template cannot be read,
or if it has a slot for which no snippet is left. -/
def error? (d : Draft) : Option Error := do
  let template ← d.template?
  if template.slots ≤ d.snippets.length then some (d.withTemplate template) else none

/-- The error of a draft, whatever its template. One that cannot be read
is taken for a text without slots. -/
def error (d : Draft) : Error :=
  d.withTemplate (d.template?.getD (Template.ofText d.template))

theorem error_of_template? {d : Draft} {t : Template} (h : d.template? = some t) :
    d.error = d.withTemplate t := by
  rw [error, h, Option.getD_some]

end Draft

/-- The error that something else was expected where a token stands. -/
def expected (what : String) (found : Token) : Error :=
  (Draft.expected what found).error

/-! ### Messages -/

/-- The message with its snippets filled in. -/
def message (e : Error) : String :=
  e.template.fill e.snippets

/-- The message to show. In colour the template is filled in once more,
with snippets in bold. -/
def highlighted (color : Bool) (e : Error) : String :=
  if color then e.template.fill (e.snippets.map Style.bold.wrap) else e.message

/-- The parts of the message, the snippets among them in bold. -/
def spans (e : Error) : List Span :=
  e.template.spans e.snippets

/-- Whether there is a snippet for each slot of the template. -/
def Fits (e : Error) : Prop :=
  e.template.slots ≤ e.snippets.length

instance (e : Error) : Decidable e.Fits :=
  inferInstanceAs (Decidable (_ ≤ _))

/-- The snippet that a diagnosis points at. -/
def snippet (e : Error) : String :=
  e.snippets.headD ""

end Error

end LoxLang
