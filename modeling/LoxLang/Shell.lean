import LoxLang.Session

/-!
# `LoxLang.Shell`: Lox line by line

A shell takes lines and runs them in a session. A line that lacks the
end of a block or of a string starts an entry, which takes the lines
that follow until it lacks nothing; then it is run as one unit. While
there is no entry, a line can also be a command of the shell.

* `Shell.Command.ofLine`: what a line asks for;
* `Shell.addLine`: goes on with an entry, or runs it;
* `Shell.enter`: does what a line asks for.
-/

set_option autoImplicit false

namespace LoxLang

/-- What to show in front of a line that starts an entry. -/
def Shell.firstPrompt : String := "> "

/-- What to show in front of a line that goes on with an entry. -/
def Shell.secondPrompt : String := ". "

/-- A session, the lines of an entry that is not complete yet, each with
its newline, and what to show in front of the next line. -/
structure Shell where
  session : Session
  entry : String := ""
  prompt : String := Shell.firstPrompt

/-- What a line asks for. -/
inductive Shell.Command where
  /-- There are no more lines. -/
  | endOfInput
  | exit
  | help
  | nothing
  /-- To go on with the entry, or to start one. -/
  | source (line : String)
deriving DecidableEq, Repr

/-- What a shell answers to a line. -/
structure Shell.Reply where
  stops : Bool := false
  text : String := ""
deriving DecidableEq, Repr

/-- What a line asks for. Commands are known only while there is no
entry, save for the end of input. A line of blanks goes on with an
entry as an empty one. -/
def Shell.Command.ofLine (hasEntry : Bool) (line : String) : Shell.Command :=
  let word := String.ofList (Text.strip line.toList)
  if line = "EOF" then .endOfInput
  else if word = "exit" ∧ hasEntry = false then .exit
  else if word = "help" ∧ hasEntry = false then .help
  else if word = "" then if hasEntry then .source "" else .nothing
  else .source line

namespace Shell

/-- Whether there is an entry that lacks something. -/
def hasEntry (sh : Shell) : Bool :=
  sh.entry ≠ ""

/-- What to show at the start. -/
def intro : String :=
  "Lox interpreter :: Python backend\n" ++
  "Type 'help' for more information.\n"

/-- The answer to a request for help. -/
def help : String :=
  "Welcome to the lox interpreter!\n\n" ++
  "Lox is a small dynamically-typed scripting language with numbers, strings, \n" ++
  "booleans and nil, lexically-scoped variables, and if/while/for control flow.\n\n" ++
  "Try it out by typing 'var x = 2;'. This will bind the number 2 to the name \n" ++
  "'x'. Next, try typing 'print x * 3;', which will print 6. Blocks (\x7b ... \x7d) \n" ++
  "can span several lines.\n"

/-- Adds a line to the entry, and runs the entry if it lacks nothing.
The entry is over before it is run, so it is over however the run
ends. -/
def addLine (rounds : Nat) (line : String) : StateM Shell Unit := do
  let unit := (← get).entry ++ line
  if Session.isIncomplete unit then
    modify fun sh => { sh with entry := unit ++ "\n", prompt := secondPrompt }
  else
    modify fun sh => { sh with entry := "", prompt := firstPrompt }
    modify fun sh => { sh with session := ((Session.runReported rounds unit).run sh.session).2 }

/-- Does what a line asks for. -/
def enter (rounds : Nat) (line : String) : StateM Shell Reply := do
  match Command.ofLine (← get).hasEntry line with
  | .endOfInput => return { stops := true, text := "\n" }
  | .exit => return { stops := true }
  | .help => return { text := help }
  | .nothing => return {}
  | .source line =>
    addLine rounds line
    return {}

end Shell

end LoxLang
