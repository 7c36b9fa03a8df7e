import LoxLang.Program

/-!
# `LoxLang.Main`: the command

Reads the file or the lines that the command is run on, and shows what
the program gives.
-/

set_option autoImplicit false

open LoxLang

/-- The octets of the file at a path, if it can be read. -/
def octetsAt? (path : String) : IO (Option (List Nat)) := do
  try
    let octets ← IO.FS.readBinFile path
    return some (octets.toList.map (·.toNat))
  catch _ => return none

/-- Shows an outcome. -/
def showOutcome (out : Outcome) : IO Unit := do
  let stdout ← IO.getStdout
  stdout.putStr out.stdout
  stdout.flush
  (← IO.getStderr).putStr out.stderr

/-- Reads lines and hands them to a shell until it stops. -/
partial def readLines (options : Options) (sh : Shell) : IO Unit := do
  showOutcome { stdout := sh.prompt }
  let input ← (← IO.getStdin).getLine
  let lines := Program.linesOf (Text.unifyNewlines input.toList)
  go (if input.isEmpty then ["EOF"] else lines) sh
where
  go : List String → Shell → IO Unit
    | [], sh => readLines options sh
    | line :: rest, sh => do
      let (stops, out, sh) := Program.enterLine options line sh
      showOutcome out
      if stops then return
      unless rest.isEmpty do showOutcome { stdout := sh.prompt }
      go rest sh

/-- Runs the command. -/
def main (arguments : List String) : IO UInt32 := do
  match Options.parse arguments with
  | .error refusal => finish (Program.refuse refusal)
  | .ok options =>
    match options.file with
    | some path => finish (Program.runFile options path (← octetsAt? path))
    | none =>
      showOutcome { stdout := Shell.intro }
      readLines options (Program.shell options)
      return 0
where
  finish (out : Outcome) : IO UInt32 := do
    showOutcome out
    return UInt32.ofNat ((out.exit.getD 0).toNat % 256)
