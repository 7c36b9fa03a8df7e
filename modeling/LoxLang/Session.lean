import LoxLang.Execution
import LoxLang.Grammar
import LoxLang.Reporter
import LoxLang.Scanner
import LoxLang.Text.Utf8

/-!
# `LoxLang.Session`: running one text after another

A session runs texts, its units, against one set of globals: a unit
sees the variables of those before it. The lines of all units are
numbered through.

* `Session.open?`: a session on a file, or on the units of a command
  line;
* `Session.run`: runs a unit. The failure of a unit says whether it
  could not be scanned, not be parsed, or stopped when it was executed;
* `Session.runReported`: runs a unit and reports its failure;
* `Session.isIncomplete`: whether a unit lacks the end of a block or of
  a string.
-/

set_option autoImplicit false

namespace LoxLang

/-- What a unit does, as a log has it. The lines are those where the
unit starts. -/
inductive Note where
  | scanned (line : Int) (tokens : Nat)
  | parsed (line : Int) (statements : Nat)
  | scope (event : ScopeEvent)
  | ran (line : Int) (statements : Nat)
deriving DecidableEq, Repr

/-- A session. `nextLine` is the line where the next unit starts, and
the notes are those on the units run so far. -/
structure Session where
  path : String
  source : Option String := none
  nextLine : Int := 1
  machine : Machine := {}
  reporter : Reporter := {}
  notes : Array Note := #[]

/-- Why a unit fails. -/
inductive Session.Failure where
  | lexical (fault : LexicalFault)
  | grammar (misplaced : Misplaced)
  | execution (fault : Fault)

/-- The draft of the error to report for a failure. -/
def Session.Failure.draft : Session.Failure → Error.Draft
  | .lexical fault => fault.draft
  | .grammar misplaced => misplaced.draft
  | .execution fault => fault.draft

/-- The error to report for a failure. -/
def Session.Failure.error (failure : Session.Failure) : Error :=
  failure.draft.error

namespace Session

/-! ### Opening -/

/-- The path of a command line. -/
def commandLine : String := "<in>"

/-- The text of a file with the given octets. -/
def textOfFile (octets : List Nat) : Except Incident String :=
  match Text.Utf8.decode 0 octets with
  | .ok s => .ok (String.ofList (Text.unifyNewlines s))
  | .error malformed => .error (.unforeseen "UnicodeDecodeError" malformed.message)

/-- The text at a path that holds the given octets, or cannot be
read. -/
def load (path : String) (octets? : Option (List Nat)) : Except Incident String :=
  if '\x00' ∈ path.toList then .error (.unforeseen "ValueError" "embedded null byte")
  else match octets? with
    | none =>
      .error (.error (Error.Draft.error (.bare "'\x7b\x7d' could not be opened" [path])))
    | some octets => textOfFile octets

/-- Opens a session on a path, given the octets that can be read there,
if any. Only an interactive session can be on a command line, and its
reporter is not fatal. -/
def open? (path : String) (interactive : Bool) (octets? : Option (List Nat))
    (reporter : Reporter) : Except Incident Session := do
  let reporter := if interactive then { reporter with fatal := false } else reporter
  if path ≠ commandLine then
    return { path, source := some (← load path octets?), reporter }
  else if interactive then
    return { path, reporter }
  else
    throw (.error (Error.Draft.error (.bare "'<in>' is a reserved filename" [""])))

/-! ### Running -/

/-- A computation on a session that may end in the failure of a unit.
The session is kept in either case. -/
abbrev Running := ExceptT Failure (StateM Session)

/-- Adds a note. -/
def note (n : Note) (s : Session) : Session :=
  { s with notes := s.notes.push n }

/-- Makes a unit's lines known, and numbers the next unit behind it. -/
def begin (source : String) (s : Session) : Session :=
  { s with
    nextLine := s.nextLine + source.toList.count '\n' + 1
    reporter := s.reporter.register s.path source s.nextLine }

/-- Executes statements on the machine of a session, and notes the
scopes they enter and leave. -/
def execute (rounds : Nat) (statements : List Stmt) : Running Unit := ExceptT.mk do
  let s ← get
  let (result, machine) := (execAll rounds statements).run.run s.machine
  set { s with
    machine := { machine with events := [] }
    notes := s.notes ++ (machine.events.reverse.map Note.scope).toArray }
  return result.mapError .execution

/-- Runs a unit: its tokens are found, then its statements, and these
are executed, with the given number of rounds for each run of a
loop. -/
def run (rounds : Nat) (source : String) : Running Unit := do
  let line := (← get).nextLine
  modify (begin source)
  let tokens ← liftExcept ((scan source line).mapError fun stuck => Failure.lexical stuck.fault)
  modify (note (.scanned line tokens.length))
  let statements ← liftExcept ((program tokens).mapError Failure.grammar)
  modify (note (.parsed line statements.length))
  execute rounds statements
  modify (note (.ran line statements.length))
  modify fun s => { s with reporter := s.reporter.clear }

/-- Deals with an incident in a session. -/
def handle (incident : Incident) : StateM Session Ending := do
  let s ← get
  let (ending, reporter) := (Reporter.handle incident).run s.reporter
  set { s with reporter }
  return ending

/-- Runs a unit and reports its failure. -/
def runReported (rounds : Nat) (source : String) : StateM Session Ending := do
  match ← (run rounds source).run with
  | .ok () => return .resumed
  | .error failure => handle (.error failure.error)

/-! ### Incomplete units -/

/-- Whether a text lacks more lines: it ends inside a string, or has
more opening than closing braces. -/
def isIncomplete (source : String) : Bool :=
  match scan source 1 with
  | .error stuck => match stuck.fault with
    | .openString _ _ _ => true
    | _ => false
  | .ok tokens =>
    decide (tokens.countP (·.kind = .rightBrace) < tokens.countP (·.kind = .leftBrace))

end Session

end LoxLang
