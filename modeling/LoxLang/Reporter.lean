import LoxLang.Diagnosis
import LoxLang.Incident
import Std.Data.TreeMap

/-!
# `LoxLang.Reporter`: how errors reach the user

A `Reporter` knows the source lines that are being run, under their
numbers, and writes a message for each error: the place, what is
wrong, and if asked for, a diagnosis of the line. A fatal reporter
then ends the process; any other forgets the lines and goes on.

* `Reporter.register`: makes the lines of a text known. Of two lines
  of one number the later one counts;
* `Reporter.render`: the message for an error;
* `Reporter.report`: writes it;
* `Reporter.handle`: deals with an incident.
-/

set_option autoImplicit false

namespace LoxLang

/-- The known source lines, and what has been written so far. -/
structure Reporter where
  fatal : Bool := true
  color : Bool := true
  path : Option String := none
  lines : Std.TreeMap Int (List Char) := ∅
  written : String := ""

namespace Reporter

/-! ### Source lines -/

/-- Makes lines known under consecutive numbers. -/
def addLines (first : Int) : List (List Char) → Reporter → Reporter
  | [], r => r
  | line :: rest, r => addLines (first + 1) rest { r with lines := r.lines.insert first line }

/-- Makes the lines of a text known, the first of which has the given
number, and notes where the text comes from. -/
def register (path source : String) (first : Int) (r : Reporter) : Reporter :=
  addLines first (Text.lines source.toList) { r with path := some path }

/-- Forgets all source lines. -/
def clear (r : Reporter) : Reporter :=
  { r with lines := ∅ }

/-! ### Messages -/

/-- The diagnosis of an error in its source line, if that is known. -/
def diagnose? (r : Reporter) (e : Error) : Option Diagnosis := do
  let line ← r.lines[← e.line]?
  Diagnosis.find? e line

/-- A text in a style, if the reporter is to use colour. -/
def colored (r : Reporter) (style : Style) (text : String) : String :=
  if r.color then style.wrap text else text

/-- The text that a diagnosis shows: its line, and below it the sign,
both two blanks from the margin. -/
def diagnosisText (r : Reporter) (d : Diagnosis) : String :=
  "  " ++ String.ofList d.front ++
  r.colored .alert (String.ofList d.marked) ++
  String.ofList d.behind ++ "\n" ++
  "  " ++ String.ofList (List.replicate d.start.toNat ' ') ++
  r.colored .alert (String.ofList d.marker)

/-- The text that a diagnosis of an error shows. -/
def diagnosisText? (r : Reporter) (e : Error) : Option String :=
  (r.diagnose? e).map r.diagnosisText

/-- Where an error is, in front of its message. -/
def location (r : Reporter) (e : Error) : String :=
  match r.path, e.line with
  | none, _ => ""
  | some path, none => r.colored .bold (path ++ ": ")
  | some path, some line => r.colored .bold (path ++ ":" ++ toString line ++ ": ")

/-- What stands below the message for an error: the diagnosis, if there
is one and the error asks for it. Errors of the library itself have
none. -/
def below (r : Reporter) (e : Error) : String :=
  match if !e.internal && e.diagnosis then r.diagnosisText? e else none with
  | some text => "\n" ++ text
  | none => ""

/-- The message for an error: its place, what is wrong, and its
diagnosis. -/
def render (r : Reporter) (e : Error) : String :=
  r.location e ++
  (if e.internal then r.colored .alert "[internal] " else "") ++
  r.colored .alert "error: " ++ e.highlighted r.color ++ r.below e

/-! ### Reporting -/

/-- Writes the message for an error. The process then exits, or the
source lines are forgotten. -/
def report (e : Error) : StateM Reporter Ending := do
  modify fun r => { r with written := r.written ++ r.render e ++ "\n" }
  if (← get).fatal then return .exits (some 1)
  modify clear
  return .resumed

/-- Deals with an incident. One that nobody has foreseen goes on up
after its report. -/
def handle : Incident → StateM Reporter Ending
  | .error e => report e
  | .unforeseen kind text => do
    match ← report (Incident.unforeseenError kind text) with
    | .resumed => return .escapes
    | ending => return ending
  | .exit code => return .exits code

end Reporter

end LoxLang
