import LoxLang.Session

/-!
# `LoxLang.Log`: the notes of a session in words

A log shows the notes that a session makes. At verbosity zero it shows
none, at one how many statements each unit ran, and above that every
note.
-/

set_option autoImplicit false

namespace LoxLang

namespace Note

/-- The least verbosity at which a note is shown. -/
def verbosity : Note → Nat
  | .ran _ _ => 1
  | .scanned _ _ | .parsed _ _ | .scope _ => 2

/-- The line of a log for something that a unit does. -/
def unitText (level path : String) (line : Int) (what : String) : String :=
  level ++ ":lox.lang.session: " ++ path ++ ":" ++ toString line ++ ": " ++ what ++ "\n"

/-- The line of a log for something that happens to scopes. -/
def scopeText (what : String) (depth : Nat) : String :=
  "DEBUG:lox.core.interpreter: " ++ what ++ " at depth " ++ toString depth ++ "\n"

/-- The line of a log for a note on a session with the given path. -/
def text (path : String) : Note → String
  | .scanned line n => unitText "DEBUG" path line ("scanned " ++ toString n ++ " tokens")
  | .parsed line n => unitText "DEBUG" path line ("parsed " ++ toString n ++ " statements")
  | .scope (.entered depth) => scopeText "entered scope" depth
  | .scope (.left depth) => scopeText "left scope, back" depth
  | .ran line n => unitText "INFO" path line ("ran " ++ toString n ++ " statements")

end Note

/-- The log of a session. -/
def Session.log (verbosity : Nat) (s : Session) : String :=
  (s.notes.filter fun n => decide (n.verbosity ≤ verbosity)).foldl
    (fun text n => text ++ n.text s.path) ""

end LoxLang
