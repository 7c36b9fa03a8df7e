import LoxLang.Text.Digit

/-!
# `LoxLang.Text.Utf8`: from octets to text

A file holds octets, which stand for text in UTF-8. A character is a
leading octet and as many tails as that one calls for. Octets that are
no characters are a fault, with its place and its reason.

* `Utf8.decode`: the characters of some octets;
* `Utf8.Malformed.message`: what to say of a fault;
* `unifyNewlines`: one kind of line end instead of three.
-/

set_option autoImplicit false

namespace LoxLang.Text

namespace Utf8

/-- What a leading octet says of its character: its bits of the code
point, the number of tails, and the range of the first of them. -/
structure Lead where
  bits : Nat
  tails : Nat
  low : Nat := 0x80
  high : Nat := 0xBF
deriving DecidableEq, Repr

/-- What an octet calls for as the first one of a character. Some octets
are never that. -/
def lead? (octet : Nat) : Option Lead :=
  if octet ≤ 0x7F then some { bits := octet, tails := 0 }
  else if octet < 0xC2 then none
  else if octet ≤ 0xDF then some { bits := octet - 0xC0, tails := 1 }
  else if octet = 0xE0 then some { bits := 0, tails := 2, low := 0xA0 }
  else if octet = 0xED then some { bits := 0xD, tails := 2, high := 0x9F }
  else if octet ≤ 0xEF then some { bits := octet - 0xE0, tails := 2 }
  else if octet = 0xF0 then some { bits := 0, tails := 3, low := 0x90 }
  else if octet ≤ 0xF3 then some { bits := octet - 0xF0, tails := 3 }
  else if octet = 0xF4 then some { bits := 4, tails := 3, high := 0x8F }
  else none

/-- The octets at the front that can be the tails of a character: at
most `n`, the first of them in the given range. -/
def takeTails (low high : Nat) : Nat → List Nat → List Nat
  | 0, _ => []
  | _ + 1, [] => []
  | n + 1, octet :: rest =>
    if low ≤ octet ∧ octet ≤ high then octet :: takeTails 0x80 0xBF n rest else []

/-- The character of some bits and of the tails behind them, each of
which has six more. -/
def charOf (bits : Nat) (tails : List Nat) : Char :=
  Char.ofNat (tails.foldl (fun n octet => n * 64 + (octet - 0x80)) bits)

/-- Why octets are no character. -/
inductive Reason where
  /-- No character begins like this. -/
  | start
  /-- The character is broken off by another octet. -/
  | continuation
  /-- The character is broken off by the end. -/
  | ending
deriving DecidableEq, Repr

/-- Octets that are no character: the longest beginning of one, or a
single octet that begins none. -/
structure Malformed where
  position : Nat
  octet : Nat
  tails : List Nat := []
  reason : Reason
deriving DecidableEq, Repr

/-- The characters of some octets, the first of which stands at the
given position. -/
def decode (position : Nat) (octets : List Nat) : Except Malformed (List Char) :=
  match octets with
  | [] => .ok []
  | octet :: rest =>
    match lead? octet with
    | none => .error { position, octet, reason := .start }
    | some lead =>
      let tails := takeTails lead.low lead.high lead.tails rest
      if tails.length = lead.tails then do
        let behind ← decode (position + 1 + tails.length) (rest.drop tails.length)
        return charOf lead.bits tails :: behind
      else
        let reason := if tails.length = rest.length then .ending else .continuation
        .error { position, octet, tails, reason }
termination_by octets.length
decreasing_by simp only [List.length_drop, List.length_cons]; omega

/-! ### Messages -/

/-- What to say of a reason. -/
def Reason.text : Reason → String
  | .start => "invalid start byte"
  | .continuation => "invalid continuation byte"
  | .ending => "unexpected end of data"

/-- What to say of octets that are no character. -/
def Malformed.message (m : Malformed) : String :=
  let place :=
    if m.tails = [] then
      "byte 0x" ++ String.ofList (hexadecimal 2 m.octet) ++ " in position " ++ toString m.position
    else "bytes in position " ++ toString m.position ++ "-" ++
      toString (m.position + m.tails.length)
  "'utf-8' codec can't decode " ++ place ++ ": " ++ m.reason.text

end Utf8

/-- A text in which each carriage return, together with a newline that
follows it, is a newline. -/
def unifyNewlines : List Char → List Char
  | [] => []
  | '\r' :: '\n' :: s => '\n' :: unifyNewlines s
  | '\r' :: s => '\n' :: unifyNewlines s
  | c :: s => c :: unifyNewlines s

end LoxLang.Text
