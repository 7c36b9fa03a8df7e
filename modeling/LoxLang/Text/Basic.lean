/-!
# `LoxLang.Text.Basic`: lines, cuts and blanks

Texts are handled as lists of characters; offsets and lengths count
characters. This module holds what the rest of the library asks of
a text:

* `lines`: the pieces between the newlines, at least one;
* `slice`: the part between two offsets, where an offset below
  zero counts from the end and one beyond the text is cut off;
* `indexOf?`: the first place where one text occurs in another;
* `trim`: a text without what stands at its two ends. `isSpace` is the
  Unicode property White_Space, and `isBlank` adds the four information
  separators to it; `strip` takes blanks off.
-/

set_option autoImplicit false

namespace LoxLang.Text

/-! ### Lines -/

/-- Puts a character in front of a list of lines: a newline begins a
new first line, any other character extends the first one. -/
def consLine (c : Char) (ls : List (List Char)) : List (List Char) :=
  if c = '\n' then [] :: ls
  else match ls with
    | [] => [[c]]
    | l :: ls => (c :: l) :: ls

/-- The pieces of a text between its newlines, at least one. Only
`\n` ends a line. -/
def lines (s : List Char) : List (List Char) :=
  s.foldr consLine [[]]

@[simp] theorem lines_nil : lines [] = [[]] := rfl

@[simp] theorem lines_cons (c : Char) (s : List Char) :
    lines (c :: s) = consLine c (lines s) := rfl

theorem lines_ne_nil (s : List Char) : lines s ≠ [] := by
  cases s with
  | nil => simp
  | cons c s =>
    simp only [lines_cons, consLine]
    split
    · simp
    · split <;> simp

/-- A text has one line more than it has newlines. -/
theorem length_lines (s : List Char) : (lines s).length = s.count '\n' + 1 := by
  induction s with
  | nil => rfl
  | cons c s ih =>
    have hne := lines_ne_nil s
    by_cases hc : c = '\n'
    · simp [consLine, hc, ih]
    · cases hl : lines s with
      | nil => exact absurd hl hne
      | cons l ls =>
        rw [hl] at ih
        simpa [consLine, hc, hl] using ih

/-- The first line of a text. -/
def firstLine (s : List Char) : List Char :=
  s.takeWhile (· ≠ '\n')

/-! ### Cuts -/

/-- The place in a text of length `n` that an offset stands for:
below zero it counts from the end, and it never leaves the text. -/
def place (n : Nat) (offset : Int) : Nat :=
  if offset < 0 then (n + offset).toNat else min n offset.toNat

/-- The part of a text from one offset up to another, empty where the
second does not lie behind the first. -/
def slice (s : List Char) (start stop : Int) : List Char :=
  (s.take (place s.length stop)).drop (place s.length start)

/-- The offset of the first occurrence of `needle` in a text. -/
def indexOf? (needle : List Char) : List Char → Option Nat
  | [] => if needle.isEmpty then some 0 else none
  | c :: s =>
    if needle.isPrefixOf (c :: s) then some 0
    else (indexOf? needle s).map (· + 1)

/-! ### Blanks -/

/-- Closed ranges of the code points of spaces, ascending. -/
def spaceRanges : List (Nat × Nat) :=
  [(0x09, 0x0D), (0x20, 0x20), (0x85, 0x85), (0xA0, 0xA0), (0x1680, 0x1680),
   (0x2000, 0x200A), (0x2028, 0x2029), (0x202F, 0x202F), (0x205F, 0x205F),
   (0x3000, 0x3000)]

/-- Whether a character is in one of some closed ranges of code
points. -/
def isIn (ranges : List (Nat × Nat)) (c : Char) : Bool :=
  ranges.any fun r => decide (r.1 ≤ c.toNat) && decide (c.toNat ≤ r.2)

/-- Whether a character is a space. -/
def isSpace (c : Char) : Bool :=
  isIn spaceRanges c

/-- Whether a character is a blank: a space or an information
separator. -/
def isBlank (c : Char) : Bool :=
  isSpace c || isIn [(0x1C, 0x1F)] c

/-- A text without the characters of a class at its two ends. -/
def trim (p : Char → Bool) (s : List Char) : List Char :=
  ((s.dropWhile p).reverse.dropWhile p).reverse

/-- A text without the blanks at its two ends. -/
def strip (s : List Char) : List Char :=
  trim isBlank s

end LoxLang.Text
