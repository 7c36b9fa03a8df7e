import LoxLang.Text.Quoted

/-!
# `LoxLang.Options`: the arguments of the command

The arguments say what file to run, how much to log, and whether error
messages are in colour. An argument is read in two steps:

* `Word.ofArgument`: what it is taken for, which hangs on itself alone.
  Long options can be abbreviated, short ones can be written together,
  and what looks like a negative number or holds a space is no option;
* `Reading.step`: what it adds to the arguments before it.

`Options.parse` reads all of them. Behind a double dash nothing is an
option.
-/

set_option autoImplicit false

namespace LoxLang

/-- What the arguments ask for. Without a file, lines are read. -/
structure Options where
  file : Option String := none
  verbosity : Nat := 0
  color : Bool := true
deriving DecidableEq, Repr

namespace Options

/-! ### Flags -/

/-- The options. -/
inductive Flag where
  | help
  | verbose
  | noColor
deriving DecidableEq, Repr

/-- Why the command does not run. -/
inductive Refusal where
  /-- It shows how it is used instead. -/
  | help
  /-- It is not used as it should be. -/
  | misuse (message : String)
deriving DecidableEq, Repr

namespace Flag

/-- Every option. -/
def all : List Flag := [.help, .verbose, .noColor]

/-- The long name of an option. -/
def long : Flag → String
  | .help => "--help"
  | .verbose => "--verbose"
  | .noColor => "--no-color"

/-- The letter of an option, if it has one. -/
def letter? : Flag → Option Char
  | .help => some 'h'
  | .verbose => some 'v'
  | .noColor => none

/-- Both names of an option. -/
def names (flag : Flag) : String :=
  match flag.letter? with
  | some c => "-" ++ c.toString ++ "/" ++ flag.long
  | none => flag.long

/-- The option of a letter. -/
def ofLetter? (c : Char) : Option Flag :=
  all.find? (·.letter? = some c)

/-- The option of a short or long name. -/
def ofName? (name : List Char) : Option Flag :=
  all.find? fun flag =>
    flag.long.toList = name ∨ flag.letter?.map (fun c => ['-', c]) = some name

/-- An option is given a value, which none of them takes. -/
def ignored (flag : Flag) (value : List Char) : Refusal :=
  .misuse ("argument " ++ flag.names ++ ": ignored explicit argument " ++
    String.ofList (Text.quoted value))

/-- An option with the letters of others behind its own. -/
def together (flag : Flag) : List Char → Except Refusal (List Flag)
  | [] => .ok [flag]
  | c :: rest =>
    match ofLetter? c with
    | some next => (next.together rest).map (flag :: ·)
    | none => .error (flag.ignored (c :: rest))

end Flag

/-! ### Single arguments -/

/-- What an argument is taken for. -/
inductive Word where
  | operand (text : String)
  /-- An option, by its short name or by its long one, and what is
  attached to the name. -/
  | option (flag : Flag) (short : Bool) (attached : Option (List Char))
  /-- An option that there is not. -/
  | stranger (text : String)
deriving DecidableEq, Repr

/-- Whether a text looks like a negative number: a minus and digits,
with a point in front of the last ones if need be. A newline at its
end does no harm. -/
def isNegative (s : List Char) : Bool :=
  let s := if s.getLast? = some '\n' then s.dropLast else s
  match s with
  | '-' :: s => match s.dropWhile Text.isDigit with
    | [] => !s.isEmpty
    | '.' :: fraction => !fraction.isEmpty && fraction.all Text.isDigit
    | _ => false
  | _ => false

/-- The name of an option and what is attached to it by an equals
sign. -/
def splitValue (s : List Char) : List Char × Option (List Char) :=
  match s.dropWhile (· ≠ '=') with
  | [] => (s, none)
  | _ :: value => (s.takeWhile (· ≠ '='), some value)

/-- The options that the beginning of a long name can stand for. -/
def completions (name : List Char) : List Flag :=
  Flag.all.filter fun flag => name.isPrefixOf flag.long.toList

/-- What an argument is taken for. -/
def Word.ofArgument (argument : String) : Except Refusal Word :=
  let s := argument.toList
  let (name, value) := splitValue s
  match Flag.ofName? name, s with
  | some flag, _ => .ok (.option flag (name.length = 2) value)
  | none, '-' :: '-' :: _ =>
    match completions name with
    | [flag] => .ok (.option flag false value)
    | [] => .ok (unknown s)
    | flags => .error (.misuse ("ambiguous option: " ++ argument ++ " could match " ++
        String.intercalate ", " (flags.map (·.long))))
  | none, '-' :: c :: rest =>
    match Flag.ofLetter? c with
    | some flag => .ok (.option flag true (some rest))
    | none => .ok (unknown s)
  | none, _ => .ok (.operand argument)
where
  unknown (s : List Char) : Word :=
    if isNegative s ∨ ' ' ∈ s then .operand argument else .stranger argument

/-- The options that an argument consists of. Only letters of others can
be attached to an option, and only behind a short name. -/
def Word.flags : Word → Except Refusal (List Flag)
  | .option flag _ none => .ok [flag]
  | .option flag true (some (c :: rest)) => flag.together (c :: rest)
  | .option flag _ (some value) => .error (flag.ignored value)
  | .operand _ | .stranger _ => .ok []

/-! ### All arguments -/

/-- What has been read, and the arguments for which there is no use. -/
structure Reading where
  options : Options := {}
  extras : List String := []
deriving DecidableEq, Repr

namespace Reading

/-- Turns an option on. -/
def turnOn (r : Reading) : Flag → Except Refusal Reading
  | .help => .error .help
  | .verbose => .ok { r with options.verbosity := r.options.verbosity + 1 }
  | .noColor => .ok { r with options.color := false }

/-- Adds an operand. The first one is the file. -/
def operand (r : Reading) (text : String) : Reading :=
  match r.options.file with
  | none => { r with options.file := some text }
  | some _ => { r with extras := r.extras ++ [text] }

/-- Adds an argument. -/
def step (r : Reading) (word : Word) : Except Refusal Reading :=
  match word with
  | .operand text => .ok (r.operand text)
  | .stranger text => .ok { r with extras := r.extras ++ [text] }
  | .option _ _ _ => do (← word.flags).foldlM turnOn r

end Reading

/-- Whether an argument that stands directly in front of a double dash
is the file. -/
def endsInFile (words : List Word) : Bool :=
  match words.getLast? with
  | some (.operand _) => decide (words.countP (· matches .operand _) = 1)
  | _ => false

/-- The operands from a double dash on. The dash itself belongs to the
file if that stands next to it. -/
def operandsFrom (words : List Word) : List String → List String
  | [] => []
  | dash :: rest =>
    if words.all (!· matches .operand _) || endsInFile words then rest else dash :: rest

/-- The options that the arguments of a command ask for. -/
def parse (arguments : List String) : Except Refusal Options := do
  let words ← (arguments.takeWhile (· ≠ "--")).mapM Word.ofArgument
  let front ← words.foldlM Reading.step {}
  let behind := operandsFrom words (arguments.dropWhile (· ≠ "--"))
  let whole := behind.foldl Reading.operand front
  if whole.extras = [] then return whole.options
  else throw (.misuse ("unrecognized arguments: " ++ String.intercalate " " whole.extras))

/-! ### Messages -/

/-- How the command is used. -/
def usage : String :=
  "usage: lox [-h] [-v] [--no-color] [file]\n"

/-- How the command is used, in full. -/
def help : String :=
  usage ++
  "\nTree-walking interpreter for the lox language.\n" ++
  "\npositional arguments:\n" ++
  "  file           file to interpret and run (if empty, goes to command-line\n" ++
  "                 mode)\n" ++
  "\noptions:\n" ++
  "  -h, --help     show this help message and exit\n" ++
  "  -v, --verbose  log interpreter activity (-vv for debug output)\n" ++
  "  --no-color     do not color error messages\n"

end Options

end LoxLang
