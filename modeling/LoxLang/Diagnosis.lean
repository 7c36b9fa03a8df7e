import LoxLang.Error
import LoxLang.Text.Basic

/-!
# `LoxLang.Diagnosis`: pointing at a place in a line

A diagnosis shows a source line and marks a part of it below. The part
is where the first snippet of an error occurs in the line: at the
error's column if the snippet stands there, and at its first
occurrence otherwise. A column below zero counts from the end of the
line.

* `Diagnosis.find?`: the diagnosis of an error in a line, or nothing
  if the snippet is empty or does not occur in it;
* `Diagnosis.front`, `Diagnosis.marked`, `Diagnosis.behind`: the parts
  of the line;
* `Diagnosis.marker`: the sign below the marked part.
-/

set_option autoImplicit false

namespace LoxLang

/-- A line and the part of it that is marked. -/
structure Diagnosis where
  line : List Char
  start : Int
  length : Nat
deriving DecidableEq, Repr

namespace Diagnosis

/-- Where the marked part of a line starts for an error, given where the
error's snippet first occurs. -/
def startOf (e : Error) (line : List Char) (first : Nat) : Int :=
  let snippet := e.snippet.toList
  match e.column with
  | some column =>
    if Text.slice line column (column + snippet.length) = snippet then column else first
  | none => first

/-- The diagnosis of an error in a line. -/
def find? (e : Error) (line : List Char) : Option Diagnosis :=
  let snippet := e.snippet.toList
  if snippet = [] then none
  else (Text.indexOf? snippet line).map fun first =>
    { line, start := startOf e line first, length := snippet.length }

/-- The offset behind the marked part. -/
def stop (d : Diagnosis) : Int :=
  d.start + d.length

/-- The marked part of the line. -/
def marked (d : Diagnosis) : List Char :=
  Text.slice d.line d.start d.stop

/-- The sign below the marked part. -/
def marker (d : Diagnosis) : List Char :=
  '^' :: List.replicate (d.length - 1) '~'

/-- The line in front of the marked part. -/
def front (d : Diagnosis) : List Char :=
  d.line.take (Text.place d.line.length d.start)

/-- The line behind the marked part. -/
def behind (d : Diagnosis) : List Char :=
  d.line.drop (Text.place d.line.length d.stop)

end Diagnosis

end LoxLang
