import LoxLang.Error

/-!
# `LoxLang.Incident`: what ends some piece of work early

Work can end early because there is an error to report, because the
process is asked to exit, or for a reason that nobody has foreseen.
An `Ending` says how things go on afterwards.
-/

set_option autoImplicit false

namespace LoxLang

/-- What ends some piece of work early. -/
inductive Incident where
  | error (e : Error)
  /-- Something unforeseen, known by its kind and a text. -/
  | unforeseen (kind text : String)
  /-- The process is asked to exit, with a code or without one. -/
  | exit (code : Option Int)

namespace Incident

/-- The user interrupts. -/
def interrupted : Incident :=
  .error (Error.Draft.error (.bare "keyboard interrupt" [""]))

/-- The nesting of a program is deeper than the machine allows. -/
def tooDeep : Incident :=
  .error (Error.Draft.error (.bare "maximum nesting depth exceeded" [""]))

/-- The draft of the error to report for something unforeseen. -/
def unforeseenDraft (kind text : String) : Error.Draft :=
  .fromWithin ("unknown error: '" ++ kind ++ ": " ++ Template.escaped text ++ "'") [""]

/-- The error to report for something unforeseen. -/
def unforeseenError (kind text : String) : Error :=
  (unforeseenDraft kind text).error

end Incident

/-- How things go on after an incident. -/
inductive Ending where
  /-- It has been dealt with. -/
  | resumed
  /-- The process exits, with a code or without one. -/
  | exits (code : Option Int)
  /-- It has been reported, but goes on up. -/
  | escapes
deriving DecidableEq, Repr

end LoxLang
