import LoxLang.Error
import LoxLang.Lexeme
import LoxLang.Number.Numeral

/-!
# `LoxLang.Scanner`: from a text to its tokens

A `Scanner` stands at a place in a text and knows the line it is on,
the text taken since the last mark, and the tokens found so far. A
token's lexeme is everything taken since the mark.

* `Scanner.scanToken`: takes the next piece and adds its token, if it
  has one;
* `Scanner.scanTokens`: marks and takes piece after piece to the end,
  and adds the token of the end;
* `scan`: the tokens of a whole text.

The first fault stops the scan. A `Stuck` is that fault together with
the scanner where it stood, so the tokens before it are not lost.
-/

set_option autoImplicit false

namespace LoxLang

/-- A scanner in the middle of a text. The mark, the next character and
the current line are known by their offsets. -/
structure Scanner where
  source : Array Char
  start : Nat := 0
  current : Nat := 0
  line : Int := 1
  lineStart : Nat := 0
  tokens : Array Token := #[]

/-- Why a scan stops. Columns are offsets from the start of the line;
a lexeme that begins in an earlier line has a negative one. -/
inductive LexicalFault where
  /-- A character that begins no token. -/
  | stray (c : Char) (line column : Int)
  /-- A string without its closing quote, and the part of it in the
  line where it begins. -/
  | openString (snippet : List Char) (line column : Int)
  /-- A number's text that is no numeral. It takes a mark in front of
  other text to get there. -/
  | notNumeral (text : List Char)
  /-- Nothing is left to take. -/
  | endOfText
deriving Repr

/-- The draft of the error to report for a lexical fault. It is internal
for the two that whole texts do not have. -/
def LexicalFault.draft : LexicalFault → Error.Draft
  | .stray c line column =>
    { cause := .lexical false
      template := "unexpected character '\x7b\x7d'"
      snippets := [c.toString]
      line := some line
      column := some column }
  | .openString snippet line column =>
    { cause := .lexical true
      template := "unterminated string"
      snippets := [String.ofList snippet]
      line := some line
      column := some column }
  | .notNumeral text => .fromWithin "'\x7b\x7d' is no numeral" [String.ofList text]
  | .endOfText => .fromWithin "nothing is left to scan" [""]

/-- The error to report for a lexical fault. -/
def LexicalFault.error (fault : LexicalFault) : Error :=
  fault.draft.error

namespace Scanner

/-- A scanner at the start of a text, which begins at the given line. -/
def ofText (source : String) (line : Int) : Scanner :=
  { source := source.toList.toArray, line }

/-- The text since the mark. -/
def taken (s : Scanner) : List Char :=
  (s.source.extract s.start s.current).toList

/-- The text that is left. -/
def rest (s : Scanner) : List Char :=
  s.source.toList.drop s.current

/-- Whether nothing is left. -/
def isAtEnd (s : Scanner) : Bool :=
  s.source.size ≤ s.current

/-- The column of the mark in the current line. -/
def column (s : Scanner) : Int :=
  (s.start : Int) - s.lineStart

/-- A fault and the scanner where it stopped. -/
structure Stuck where
  fault : LexicalFault
  scanner : Scanner

/-! ### Moving -/

/-- Sets the mark to the next character. -/
def mark (s : Scanner) : Scanner :=
  { s with start := s.current }

/-- Moves over the next `n` characters without minding the lines. -/
def skip (n : Nat) (s : Scanner) : Scanner :=
  { s with current := s.current + n }

/-- Begins a new line at an offset. -/
def beginLine (offset : Nat) (s : Scanner) : Scanner :=
  { s with line := s.line + 1, lineStart := offset }

/-- The character `n` places ahead, NUL beyond the end. -/
def peek (n : Nat) (s : Scanner) : Char :=
  s.source[s.current + n]?.getD '\x00'

/-- The next character and the scanner behind it. -/
def advance? (s : Scanner) : Option (Char × Scanner) :=
  s.source[s.current]?.map fun c => (c, s.skip 1)

/-- Moves over the next character, which has to be there. -/
def advance (s : Scanner) : Except Stuck (Char × Scanner) :=
  match s.advance? with
  | some moved => .ok moved
  | none => .error { fault := .endOfText, scanner := s }

/-- Moves over the next character if it is the given one, and says
whether it was. -/
def accept (c : Char) (s : Scanner) : Bool × Scanner :=
  if s.source[s.current]? = some c then (true, s.skip 1) else (false, s)

/-! ### Runs of characters -/

/-- The number of characters that are left. -/
def left (s : Scanner) : Nat :=
  s.source.size - s.current

/-- What is moved over is no longer left. -/
theorem left_lt_of_advance {s t : Scanner} {c : Char} (h : s.advance = .ok (c, t)) :
    t.left < s.left := by
  rw [advance, advance?] at h
  cases hc : s.source[s.current]? with
  | none => simp [hc] at h
  | some d =>
    have hlt := (Array.getElem?_eq_some_iff.mp hc).1
    simp only [hc, Option.map_some, Except.ok.injEq, Prod.mk.injEq] at h
    rw [← h.2]
    show s.source.size - (s.current + 1) < s.source.size - s.current
    omega

/-- Moves on for as long as there is more to move over. -/
def advanceWhile (more : Scanner → Bool) (s : Scanner) : Except Stuck Scanner :=
  if more s then
    match h : s.advance with
    | .error stuck => .error stuck
    | .ok (_, t) =>
      have : t.left < s.left := left_lt_of_advance h
      t.advanceWhile more
  else .ok s
termination_by s.left

/-- Begins a new line behind the next character if that is a newline. -/
def beginBehind (s : Scanner) : Scanner :=
  if s.peek 0 = '\n' then s.beginLine (s.current + 1) else s

theorem left_beginBehind (s : Scanner) : s.beginBehind.left = s.left := by
  rw [beginBehind]
  split <;> rfl

/-- Moves up to the next quote, or to the end of the text. For a newline
on the way a new line begins before it is moved over. -/
def advanceToQuote (s : Scanner) : Except Stuck Scanner :=
  if s.peek 0 ≠ '"' && !s.isAtEnd then
    match h : s.beginBehind.advance with
    | .error stuck => .error stuck
    | .ok (_, t) =>
      have : t.left < s.left := s.left_beginBehind ▸ left_lt_of_advance h
      t.advanceToQuote
  else .ok s
termination_by s.left

/-! ### Adding tokens -/

/-- Adds a token whose lexeme is the text since the mark. A lexeme that
begins in an earlier line has no column. -/
def add (kind : Token.Kind) (payload : Value) (s : Scanner) : Scanner :=
  { s with
    tokens := s.tokens.push
      { kind, payload
        lexeme := String.ofList s.taken
        line := s.line
        column := if s.lineStart ≤ s.start then some s.column else none } }

/-- Adds the token of the end of the text. -/
def addEnd (s : Scanner) : Scanner :=
  { s with
    tokens := s.tokens.push
      { kind := .eof
        lexeme := ""
        line := s.line
        column := some ((s.current : Int) - s.lineStart) } }

/-- Adds the token of a number, whose payload is the float nearest to the
numeral. -/
def addNumber (s : Scanner) : Except Stuck Scanner :=
  match Numeral.ofText? s.taken with
  | some n => .ok (s.add .number (.number n.toFloat))
  | none => .error { fault := .notNumeral s.taken, scanner := s }

/-! ### Scanning -/

/-- Takes the rest of a string, the opening quote of which has been
taken. Its payload is the text between the quotes. Without a closing
quote it takes the rest of the text; the fault is where the string
begins, and has the part of it in that line. -/
def scanString (s : Scanner) : Except Stuck Scanner := do
  let t ← s.advanceToQuote
  if t.isAtEnd then
    let snippet := Text.firstLine (t.source.toList.drop t.start)
    throw { fault := .openString snippet s.line s.column, scanner := t }
  let (_, t) ← t.advance
  let body := (t.source.extract (t.start + 1) (t.current - 1)).toList
  return t.add .string (.string (String.ofList body))

/-- Takes the rest of a number. A point belongs to it only if a digit
follows. -/
def scanNumber (s : Scanner) : Except Stuck Scanner := do
  let digits := advanceWhile fun s => Lexeme.isDigit (s.peek 0)
  let t ← digits s
  if t.peek 0 = '.' && Lexeme.isDigit (t.peek 1) then
    let (_, t) ← t.advance
    let t ← digits t
    t.addNumber
  else t.addNumber

/-- Takes the rest of a word, which is a keyword if it is reserved. -/
def scanWord (s : Scanner) : Except Stuck Scanner := do
  let t ← s.advanceWhile fun s => Lexeme.isWordPart (s.peek 0)
  return t.add (Token.Kind.ofWord (String.ofList t.taken)) .nil

open Lexeme in
/-- Takes the next piece of the text and adds its token, if it has one. A
comment goes up to the newline that ends its line. -/
def scanToken (s : Scanner) : Except Stuck Scanner := do
  let (c, t) ← s.advance
  match single? c, double? c with
  | some kind, _ => return t.add kind .nil
  | none, some (wide, alone) =>
    let (found, t) := t.accept '='
    return t.add (if found then wide else alone) .nil
  | none, none =>
    if c = '/' then
      let (found, t) := t.accept '/'
      if found then t.advanceWhile fun s => s.peek 0 ≠ '\n' && !s.isAtEnd
      else return t.add .slash .nil
    else if isIgnored c then return t
    else if c = '\n' then return t.beginLine t.current
    else if c = '"' then t.scanString
    else if isDigit c then t.scanNumber
    else if isLetter c then t.scanWord
    else throw { fault := .stray c t.line t.column, scanner := t }

/-! ### Progress -/

/-- Moves over a character. Behind a newline a new line begins. -/
def past (c : Char) (s : Scanner) : Scanner :=
  if c = '\n' then (s.skip 1).beginLine (s.current + 1) else s.skip 1

@[simp] theorem source_past (c : Char) (s : Scanner) : (s.past c).source = s.source := by
  rw [past]
  split <;> rfl

@[simp] theorem current_past (c : Char) (s : Scanner) : (s.past c).current = s.current + 1 := by
  rw [past]
  split <;> rfl

/-- A property of scanners that passing a character keeps, and adding a
token too. -/
structure Kept (P : Scanner → Prop) : Prop where
  past : ∀ {s : Scanner} {c : Char}, s.source[s.current]? = some c → P s → P (s.past c)
  add : ∀ {s : Scanner} (kind : Token.Kind) (payload : Value), P s → P (s.add kind payload)

/-- A property of the scanner that something ends with, be it stuck or
not. -/
def Ends (P : Scanner → Prop) : Except Stuck Scanner → Prop
  | .ok t => P t
  | .error stuck => P stuck.scanner

variable {P : Scanner → Prop} {s t : Scanner}

theorem Ends.bind {x : Except Stuck Scanner} {f : Scanner → Except Stuck Scanner}
    (hx : Ends P x) (hf : ∀ t, x = .ok t → P t → Ends P (f t)) : Ends P (x >>= f) := by
  cases x with
  | ok t => exact hf t rfl hx
  | error stuck => exact hx

theorem advance_of_getElem? {c : Char} (h : s.source[s.current]? = some c) :
    s.advance = .ok (c, s.skip 1) := by
  rw [advance, advance?, h]
  rfl

theorem advance_of_none (h : s.source[s.current]? = none) :
    s.advance = .error { fault := .endOfText, scanner := s } := by
  rw [advance, advance?, h]
  rfl

/-- What is moved over is the next character. -/
theorem of_advance {c : Char} (h : s.advance = .ok (c, t)) :
    s.source[s.current]? = some c ∧ t = s.skip 1 := by
  cases hnext : s.source[s.current]? with
  | none =>
    rw [advance_of_none hnext] at h
    cases h
  | some d =>
    rw [advance_of_getElem? hnext] at h
    cases h
    exact ⟨rfl, rfl⟩

/-- A scanner that cannot move stays where it is. -/
theorem of_advance_error {stuck : Stuck} (h : s.advance = .error stuck) : stuck.scanner = s := by
  cases hnext : s.source[s.current]? with
  | none =>
    rw [advance_of_none hnext] at h
    cases h
    rfl
  | some d =>
    rw [advance_of_getElem? hnext] at h
    cases h

theorem peek_zero {c : Char} (h : s.source[s.current]? = some c) : s.peek 0 = c := by
  rw [peek, Nat.add_zero, h, Option.getD_some]

theorem exists_next (h : s.isAtEnd = false) : ∃ c, s.source[s.current]? = some c := by
  rw [isAtEnd, decide_eq_false_iff_not, Nat.not_le] at h
  exact ⟨_, Array.getElem?_eq_getElem h⟩

/-- A character is passed in the same way whether the new line is begun
before or behind the move. -/
theorem advance_beginBehind {c : Char} (h : s.source[s.current]? = some c) :
    s.beginBehind.advance = .ok (c, s.past c) := by
  rw [beginBehind, peek_zero h, past]
  split
  · exact advance_of_getElem? h
  · exact advance_of_getElem? h

/-- The inside of a string ends at a quote, or with the text. -/
theorem next_of_advanceToQuote (h : s.advanceToQuote = .ok t) (hend : t.isAtEnd = false) :
    t.source[t.current]? = some '"' := by
  fun_induction advanceToQuote s with
  | case1 => cases h
  | case2 _ _ _ _ _ _ ih => exact ih h
  | case3 s hstop =>
    cases h
    obtain ⟨c, hnext⟩ := exists_next hend
    simpa [peek_zero hnext, hend, hnext] using hstop

namespace Kept

/-- A character that is no newline is passed by a plain move. -/
theorem skip (h : Kept P) {c : Char} (hs : P s) (hnext : s.source[s.current]? = some c)
    (hc : c ≠ '\n') : P (s.skip 1) := by
  have hpast := h.past hnext hs
  rwa [Scanner.past, if_neg hc] at hpast

theorem accept (h : Kept P) {c : Char} (hs : P s) (hc : c ≠ '\n') : P (s.accept c).2 := by
  rw [Scanner.accept]
  split
  · next hnext => exact h.skip hs hnext hc
  · exact hs

/-- A run of characters without a newline, one after another. -/
theorem advanceWhile (h : Kept P) {more : Scanner → Bool}
    (hmore : ∀ s, more s = true → s.peek 0 ≠ '\n') (hs : P s) :
    Ends P (s.advanceWhile more) := by
  fun_induction Scanner.advanceWhile more s with
  | case1 s hgo stuck hadvance =>
    rw [← of_advance_error hadvance] at hs
    exact hs
  | case2 s hgo c t hadvance _ ih =>
    obtain ⟨hnext, rfl⟩ := of_advance hadvance
    exact ih (h.skip hs hnext (peek_zero hnext ▸ hmore s hgo))
  | case3 => exact hs

/-- The inside of a string, where newlines are passed too. -/
theorem advanceToQuote (h : Kept P) (hs : P s) : Ends P s.advanceToQuote := by
  fun_induction Scanner.advanceToQuote s with
  | case1 s hgo stuck hadvance =>
    obtain ⟨c, hnext⟩ := exists_next (by simpa using (Bool.and_eq_true_iff.mp hgo).2)
    rw [advance_beginBehind hnext] at hadvance
    cases hadvance
  | case2 s hgo c t hadvance _ ih =>
    obtain ⟨d, hnext⟩ := exists_next (by simpa using (Bool.and_eq_true_iff.mp hgo).2)
    rw [advance_beginBehind hnext] at hadvance
    cases hadvance
    exact ih (h.past hnext hs)
  | case3 => exact hs

theorem addNumber (h : Kept P) (hs : P s) : Ends P s.addNumber := by
  rw [Scanner.addNumber]
  split
  · exact h.add _ _ hs
  · exact hs

theorem scanString (h : Kept P) (hs : P s) : Ends P s.scanString := by
  refine (h.advanceToQuote hs).bind fun t hquote ht => ?_
  split
  · exact ht
  · next hend =>
    have hnext := next_of_advanceToQuote hquote (by simpa using hend)
    rw [advance_of_getElem? hnext]
    exact h.add _ _ (h.skip ht hnext (by decide))

theorem scanNumber (h : Kept P) (hs : P s) : Ends P s.scanNumber := by
  have hdigits (s : Scanner) (hs : P s) :
      Ends P (s.advanceWhile fun s => Lexeme.isDigit (s.peek 0)) := by
    refine h.advanceWhile (fun s hdigit hnewline => ?_) hs
    rw [hnewline] at hdigit
    exact absurd hdigit (by decide)
  refine (hdigits s hs).bind fun t _ ht => ?_
  split
  · next hpoint =>
    have hpoint' : t.peek 0 = '.' := by simpa using (Bool.and_eq_true_iff.mp hpoint).1
    cases hnext : t.source[t.current]? with
    | none =>
      rw [advance_of_none hnext]
      exact ht
    | some c =>
      have hc : c ≠ '\n' := by
        rw [← peek_zero hnext, hpoint']
        decide
      rw [advance_of_getElem? hnext]
      exact (hdigits _ (h.skip ht hnext hc)).bind fun _ _ hu => h.addNumber hu
  · exact h.addNumber ht

theorem scanWord (h : Kept P) (hs : P s) : Ends P s.scanWord := by
  refine (h.advanceWhile (fun s hpart hnewline => ?_) hs).bind fun t _ ht => h.add _ _ ht
  rw [hnewline] at hpart
  exact absurd hpart (by decide)

/-- A piece that is taken, or on which the scanner gets stuck, behind its
first character. -/
theorem scanToken (h : Kept P) {c : Char} (hnext : s.source[s.current]? = some c)
    (hs : P (s.past c)) : Ends P s.scanToken := by
  rw [Scanner.scanToken, advance_of_getElem? hnext]
  by_cases hnewline : c = '\n'
  · subst hnewline
    exact hs
  · rw [Scanner.past, if_neg hnewline] at hs
    simp only [bind, Except.bind]
    split
    · exact h.add _ _ hs
    · exact h.add _ _ (h.accept hs (by decide))
    · split
      -- a slash, which begins a comment if another one follows
      · have hslash := h.accept (c := '/') hs (by decide)
        split
        · exact h.advanceWhile (fun s hmore => by simp_all) hslash
        · exact h.add _ _ hslash
      · repeat' split
        · exact hs
        · exact h.scanString hs
        · exact h.scanNumber hs
        · exact h.scanWord hs
        · exact hs

end Kept

/-- What has been passed stays passed. -/
theorem kept_current_le (n : Nat) : Kept fun t => n ≤ t.current where
  past _ h := by
    rw [current_past]
    omega
  add _ _ h := h

theorem kept_source (source : Array Char) : Kept fun t => t.source = source where
  past _ h := by rwa [source_past]
  add _ _ h := h

/-- A step goes on in the same text, and what it has passed is less. -/
theorem left_lt_of_scanToken (h : s.scanToken = .ok t) : t.left < s.left := by
  cases hnext : s.source[s.current]? with
  | none =>
    rw [scanToken, advance_of_none hnext] at h
    cases h
  | some c =>
    have hsource := (kept_source s.source).scanToken hnext (source_past c s)
    have hpast : s.current + 1 ≤ (s.past c).current := Nat.le_of_eq (current_past c s).symm
    have hcurrent := (kept_current_le (s.current + 1)).scanToken hnext hpast
    rw [h] at hsource hcurrent
    have hlt := (Array.getElem?_eq_some_iff.mp hnext).1
    simp only [Ends] at hsource hcurrent
    rw [left, left, hsource]
    omega

/-- Takes the text piece by piece to its end, with a mark before each,
and adds the token of the end. -/
def scanTokens (s : Scanner) : Except Stuck Scanner :=
  if s.isAtEnd then .ok s.addEnd
  else match h : s.mark.scanToken with
    | .error stuck => .error stuck
    | .ok t =>
      have : t.left < s.mark.left := left_lt_of_scanToken h
      t.scanTokens
termination_by s.left

end Scanner

/-- The tokens of a text, the last of which is that of its end. The
text begins at the given line. -/
def scan (source : String) (line : Int) : Except Scanner.Stuck (List Token) :=
  (Scanner.ofText source line).scanTokens.map (·.tokens.toList)

end LoxLang
