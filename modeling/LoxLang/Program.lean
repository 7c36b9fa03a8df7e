import LoxLang.Log
import LoxLang.Options
import LoxLang.Shell

/-!
# `LoxLang.Program`: the command as a whole

The command runs a file, or reads lines and runs them in a shell. What
it needs from outside are its arguments, the octets of the file, and
the text to read lines from. What it gives are an `Outcome`: two texts
and an exit code.

* `Program.runFile`: runs the text of a file as one unit. Every error
  is fatal;
* `Program.runLines`: hands lines to a shell until it stops. The end of
  the lines is one more line;
* `Program.run`: does what the arguments ask for.
-/

set_option autoImplicit false

namespace LoxLang

/-- What a run gives. A run that ends by itself has no exit code. -/
structure Outcome where
  exit : Option Int := none
  stdout : String := ""
  stderr : String := ""
deriving DecidableEq, Repr

namespace Program

/-- The number of rounds for each run of a loop. No loop gets through
them in a lifetime. -/
def rounds : Nat := 1000000000000000000

/-- The exit code of a run that ends with an incident. -/
def exitOf : Ending → Option Int
  | .resumed => none
  | .exits code => code
  | .escapes => some 1

/-- What a session has shown so far: its log stands in front of its
messages. -/
def shown (verbosity : Nat) (s : Session) : Outcome :=
  { stdout := s.machine.printed, stderr := s.log verbosity ++ s.reporter.written }

/-- The session without what it has shown. -/
def hush (s : Session) : Session :=
  { s with
    notes := #[]
    machine := { s.machine with printed := "" }
    reporter := { s.reporter with written := "" } }

/-- A session that notes what the given verbosity shows. -/
def trace (verbosity : Nat) (s : Session) : Session :=
  { s with machine := { s.machine with traced := 2 ≤ verbosity } }

/-! ### Files -/

/-- Runs the file at a path, given the octets that can be read there,
if any. -/
def runFile (options : Options) (path : String) (octets? : Option (List Nat)) : Outcome :=
  let reporter : Reporter := { color := options.color }
  match Session.open? path false octets? reporter with
  | .error incident =>
    let (ending, reporter) := (Reporter.handle incident).run reporter
    { exit := exitOf ending, stderr := reporter.written }
  | .ok session =>
    let (ending, session) :=
      (Session.runReported rounds (session.source.getD "")).run (trace options.verbosity session)
    { shown options.verbosity session with exit := exitOf ending }

/-! ### Lines -/

/-- A new shell. -/
def shell (options : Options) : Shell :=
  let session : Session :=
    { path := Session.commandLine, reporter := { fatal := false, color := options.color } }
  { session := trace options.verbosity session }

/-- Hands a line to a shell: whether the shell then stops, and what is
to be shown. -/
def enterLine (options : Options) (line : String) (sh : Shell) : Bool × Outcome × Shell :=
  let (reply, sh) := (Shell.enter rounds line).run sh
  let out := shown options.verbosity sh.session
  (reply.stops, { out with stdout := out.stdout ++ reply.text },
    { sh with session := hush sh.session })

/-- Hands lines to a shell until it stops. In front of each line there
is a prompt. -/
def converse (options : Options) : List String → Shell → Outcome
  | [], _ => {}
  | line :: rest, sh =>
    let (stops, out, next) := enterLine options line sh
    let after : Outcome := if stops then {} else converse options rest next
    { stdout := sh.prompt ++ out.stdout ++ after.stdout, stderr := out.stderr ++ after.stderr }

/-- The lines of a text. Behind the last newline there is no line. -/
def linesOf (input : List Char) : List String :=
  let lines := Text.lines input
  (if lines.getLast? = some [] then lines.dropLast else lines).map String.ofList

/-- Hands the lines of a text to a shell, and then the end of input. -/
def runLines (options : Options) (input : String) : Outcome :=
  let out := converse options (linesOf (Text.unifyNewlines input.toList) ++ ["EOF"])
    (shell options)
  { out with stdout := Shell.intro ++ out.stdout }

/-! ### The command -/

/-- What the command shows instead of running. -/
def refuse : Options.Refusal → Outcome
  | .help => { exit := some 0, stdout := Options.help }
  | .misuse message =>
    { exit := some 2, stderr := Options.usage ++ "lox: error: " ++ message ++ "\n" }

/-- Runs the command with its arguments, the octets that can be read at
each path, and the text to read lines from. -/
def run (arguments : List String) (read : String → Option (List Nat)) (input : String) :
    Outcome :=
  match Options.parse arguments with
  | .error refusal => refuse refusal
  | .ok options =>
    match options.file with
    | some path => runFile options path (read path)
    | none => runLines options input

end Program

end LoxLang
