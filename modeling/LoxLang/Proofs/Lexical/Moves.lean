import LoxLang.Scanner
import Mathlib.Data.List.Basic

/-!
# `LoxLang.Proofs.Lexical.Moves`: how far a scanner's loops go

`Scanner.pass` moves a scanner over a text, character by character.
Each loop of a scanner moves over the longest run of its characters in
front of it and not further, and a newline on the way is counted
wherever it is met.

* `Scanner.advanceWhile_run`, `Scanner.advanceToQuote_run`: what the
  loops move over;
* `Scanner.scanString_closed`, `Scanner.scanString_open`,
  `Scanner.scanNumber_whole`, `Scanner.scanNumber_fraction`,
  `Scanner.scanWord_run`: the rest of a long piece;
* `Scanner.scanToken_of_rest`: a step, by the character it begins with.
-/

set_option autoImplicit false

namespace LoxLang.Scanner

variable {s t : Scanner} {c : Char} {text rest : List Char}

/-! ### What is ahead -/

theorem getElem?_rest (s : Scanner) (n : Nat) : s.rest[n]? = s.source[s.current + n]? := by
  rw [rest, List.getElem?_drop, Array.getElem?_toList]

theorem getElem?_of_rest (h : s.rest = c :: rest) : s.source[s.current]? = some c := by
  simpa [h] using (getElem?_rest s 0).symm

theorem isAtEnd_iff_rest : s.isAtEnd = true ↔ s.rest = [] := by
  rw [isAtEnd, decide_eq_true_iff, rest, List.drop_eq_nil_iff, Array.length_toList]

theorem isAtEnd_of_rest_cons (h : s.rest = c :: rest) : s.isAtEnd = false := by
  rw [← Bool.not_eq_true, isAtEnd_iff_rest, h]
  exact List.cons_ne_nil c rest

theorem peek_eq_rest (s : Scanner) (n : Nat) : s.peek n = s.rest[n]?.getD '\x00' := by
  rw [peek, getElem?_rest]

/-- A character that NUL does not have the property of is told from the
end of the text. -/
theorem peek_zero_eq_any {p : Char → Bool} (hp : p '\x00' = false) (s : Scanner) :
    p (s.peek 0) = s.rest.head?.any p := by
  rw [peek_eq_rest, ← List.head?_eq_getElem?]
  cases s.rest.head? with
  | none => exact hp
  | some c => rfl

theorem accept_eq_rest (c : Char) (s : Scanner) :
    s.accept c = if s.rest.head? = some c then (true, s.skip 1) else (false, s) := by
  rw [accept, List.head?_eq_getElem?, getElem?_rest, Nat.add_zero]

/-! ### Passing a text -/

/-- Moves over the characters of a text, one after another. -/
def pass (text : List Char) (s : Scanner) : Scanner :=
  text.foldl (fun s c => s.past c) s

@[simp] theorem pass_nil (s : Scanner) : s.pass [] = s := rfl

@[simp] theorem pass_cons (c : Char) (text : List Char) (s : Scanner) :
    s.pass (c :: text) = (s.past c).pass text := rfl

theorem pass_append (first last : List Char) (s : Scanner) :
    s.pass (first ++ last) = (s.pass first).pass last :=
  List.foldl_append

/-- What passing a character keeps, passing a text keeps. -/
theorem pass_eq_of_past {α : Type} {f : Scanner → α} (h : ∀ c s, f (past c s) = f s)
    (text : List Char) (s : Scanner) : f (s.pass text) = f s := by
  induction text generalizing s with
  | nil => rfl
  | cons c text ih => rw [pass_cons, ih, h]

theorem start_past (c : Char) (s : Scanner) : (s.past c).start = s.start := by
  rw [past]
  split <;> rfl

theorem tokens_past (c : Char) (s : Scanner) : (s.past c).tokens = s.tokens := by
  rw [past]
  split <;> rfl

@[simp] theorem source_pass (text : List Char) (s : Scanner) :
    (s.pass text).source = s.source :=
  pass_eq_of_past source_past text s

@[simp] theorem start_pass (text : List Char) (s : Scanner) : (s.pass text).start = s.start :=
  pass_eq_of_past start_past text s

@[simp] theorem tokens_pass (text : List Char) (s : Scanner) :
    (s.pass text).tokens = s.tokens :=
  pass_eq_of_past tokens_past text s

@[simp] theorem current_pass (text : List Char) (s : Scanner) :
    (s.pass text).current = s.current + text.length := by
  induction text generalizing s with
  | nil => rfl
  | cons c text ih =>
    rw [pass_cons, ih, current_past, List.length_cons]
    omega

theorem rest_past (h : s.rest = c :: rest) : (s.past c).rest = rest := by
  have hdrop := congrArg (List.drop 1) h
  rw [Scanner.rest, List.drop_drop] at hdrop
  rw [Scanner.rest, source_past, current_past, hdrop, List.drop_one, List.tail_cons]

theorem rest_pass (h : s.rest = text ++ rest) : (s.pass text).rest = rest := by
  induction text generalizing s with
  | nil => exact h
  | cons c text ih => exact ih (rest_past h)

/-- What is passed from the mark on is what has been taken. -/
theorem taken_pass (hstart : s.start = s.current) (h : s.rest = text ++ rest) :
    (s.pass text).taken = text := by
  rw [taken, source_pass, start_pass, current_pass, hstart, Array.toList_extract,
    List.extract_eq_take_drop, Nat.add_sub_cancel_left]
  show s.rest.take text.length = text
  rw [h, List.take_left]

/-- A character that is no newline is passed by a plain move. -/
theorem past_of_ne (hc : c ≠ '\n') (s : Scanner) : s.past c = s.skip 1 :=
  if_neg hc

/-! ### Loops -/

theorem advanceWhile_of_next {more : Scanner → Bool} (hmore : more s = true)
    (h : s.rest = c :: rest) : s.advanceWhile more = (s.skip 1).advanceWhile more := by
  have hadvance := advance_of_getElem? (getElem?_of_rest h)
  rw [advanceWhile, if_pos hmore]
  split <;> simp_all

/-- A loop over the characters of a class, which newlines are not of,
passes the run of them that is ahead. -/
theorem advanceWhile_run {p : Char → Bool} {more : Scanner → Bool}
    (hmore : ∀ t, more t = t.rest.head?.any p) (hnewline : p '\n' = false)
    (htext : ∀ c ∈ text, p c = true) (hend : ∀ c ∈ rest.head?, p c = false)
    (h : s.rest = text ++ rest) : s.advanceWhile more = .ok (s.pass text) := by
  induction text generalizing s with
  | nil =>
    have hstop : more s = false := by
      rw [hmore, h, List.nil_append]
      cases rest with
      | nil => rfl
      | cons d rest => exact hend d rfl
    rw [advanceWhile, hstop]
    rfl
  | cons c text ih =>
    obtain ⟨hc, htext'⟩ := List.forall_mem_cons.mp htext
    have hgo : more s = true := by
      rw [hmore, h]
      exact hc
    have hne : c ≠ '\n' := by
      rintro rfl
      exact Bool.false_ne_true (hnewline.symm.trans hc)
    rw [advanceWhile_of_next hgo h, pass_cons, ← past_of_ne hne]
    exact ih htext' (rest_past h)

theorem advanceToQuote_of_next (hc : c ≠ '"') (h : s.rest = c :: rest) :
    s.advanceToQuote = (s.past c).advanceToQuote := by
  have hadvance := advance_beginBehind (getElem?_of_rest h)
  rw [advanceToQuote, if_pos (by simp [peek_zero (getElem?_of_rest h), hc, isAtEnd_of_rest_cons h])]
  split <;> simp_all

/-- The loop of a string passes what is in front of the next quote,
newlines too. -/
theorem advanceToQuote_run (htext : '"' ∉ text) (hend : ∀ c ∈ rest.head?, c = '"')
    (h : s.rest = text ++ rest) : s.advanceToQuote = .ok (s.pass text) := by
  induction text generalizing s with
  | nil =>
    have hstop : (s.peek 0 ≠ '"' && !s.isAtEnd) = false := by
      cases rest with
      | nil => simp [isAtEnd_iff_rest.mpr h]
      | cons d rest => simp [peek_zero (getElem?_of_rest h), hend d rfl]
    rw [advanceToQuote, hstop]
    rfl
  | cons c text ih =>
    obtain ⟨hc, htext'⟩ := not_or.mp (List.mem_cons.not.mp htext)
    rw [advanceToQuote_of_next (Ne.symm hc) h, pass_cons]
    exact ih htext' (rest_past h)

/-! ### Long pieces -/

/-- A string that has an end is its body between two quotes. -/
theorem scanString_closed {body : List Char} (hstart : s.start + 1 = s.current)
    (hbody : '"' ∉ body) (h : s.rest = body ++ '"' :: rest) :
    s.scanString = .ok
      ((s.pass (body ++ ['"'])).add .string (.string (String.ofList body))) := by
  have hloop := advanceToQuote_run hbody (by simp) h
  have hquote := rest_pass h
  have hlast : (s.pass (body ++ ['"'])) = (s.pass body).skip 1 :=
    pass_append body ['"'] s
  -- between the quotes is what the loop has passed, newlines included
  have hinside : ((s.pass body).source.extract ((s.pass body).start + 1)
      ((s.pass body).current + 1 - 1)).toList = body := by
    rw [source_pass, start_pass, current_pass, hstart, Array.toList_extract,
      List.extract_eq_take_drop, Nat.add_sub_cancel, Nat.add_sub_cancel_left]
    show s.rest.take body.length = body
    rw [h, List.take_left]
  rw [scanString, hloop, hlast]
  simp only [bind, Except.bind, isAtEnd_of_rest_cons hquote, Bool.false_eq_true, if_false,
    advance_of_getElem? (getElem?_of_rest hquote)]
  exact congrArg
    (fun body => Except.ok (((s.pass _).skip 1).add .string (.string (String.ofList body)))) hinside

/-- Without a quote ahead a string goes on to the end of the text. -/
theorem scanString_open (h : '"' ∉ s.rest) :
    s.scanString = .error
      { fault := .openString (Text.firstLine (s.source.toList.drop s.start)) s.line s.column
        scanner := s.pass s.rest } := by
  have hrest : s.rest = s.rest ++ [] := (List.append_nil s.rest).symm
  have hend := isAtEnd_iff_rest.mpr (rest_pass hrest)
  rw [scanString, advanceToQuote_run h (by simp) hrest]
  simp only [bind, Except.bind, hend, if_true, source_pass, start_pass]
  rfl

theorem addNumber_of_ofText? {n : Numeral} (h : Numeral.ofText? s.taken = some n) :
    s.addNumber = .ok (s.add .number (.number n.toFloat)) := by
  rw [addNumber, h]

/-- The digits of a number. -/
theorem advanceWhile_digits {ds : List Char} (hds : ∀ d ∈ ds, Lexeme.isDigit d = true)
    (hend : ∀ d ∈ rest.head?, Lexeme.isDigit d = false) (h : s.rest = ds ++ rest) :
    (s.advanceWhile fun s => Lexeme.isDigit (s.peek 0)) = .ok (s.pass ds) :=
  advanceWhile_run (peek_zero_eq_any (by decide)) (by decide) hds hend h

/-- Digits are the whole number if no point with a digit behind it
follows. -/
theorem scanNumber_whole {ds : List Char} (hds : ∀ d ∈ ds, Lexeme.isDigit d = true)
    (hend : ∀ d ∈ rest.head?, Lexeme.isDigit d = false)
    (hpoint : ∀ d, ['.', d] <+: rest → Lexeme.isDigit d = false) (h : s.rest = ds ++ rest) :
    s.scanNumber = (s.pass ds).addNumber := by
  have hahead : ((s.pass ds).peek 0 = '.' && Lexeme.isDigit ((s.pass ds).peek 1)) = false := by
    rw [peek_eq_rest, peek_eq_rest, rest_pass h]
    match rest with
    | [] => rfl
    | [c] => exact Bool.and_eq_false_imp.mpr fun _ => rfl
    | c :: d :: rest =>
      refine Bool.and_eq_false_imp.mpr fun hc => hpoint d ?_
      obtain rfl : c = '.' := of_decide_eq_true hc
      exact ⟨rest, rfl⟩
  rw [scanNumber]
  simp only [bind, Except.bind, advanceWhile_digits hds hend h, hahead, Bool.false_eq_true,
    if_false]

/-- Digits, a point and further digits are a number. -/
theorem scanNumber_fraction {d : Char} {ds places : List Char}
    (hds : ∀ d ∈ ds, Lexeme.isDigit d = true) (hd : Lexeme.isDigit d = true)
    (hplaces : ∀ d ∈ places, Lexeme.isDigit d = true)
    (hend : ∀ d ∈ rest.head?, Lexeme.isDigit d = false)
    (h : s.rest = ds ++ '.' :: d :: places ++ rest) :
    s.scanNumber = (s.pass (ds ++ '.' :: d :: places)).addNumber := by
  rw [List.append_assoc] at h
  have hpoint := rest_pass h
  have hahead : ((s.pass ds).peek 0 = '.' && Lexeme.isDigit ((s.pass ds).peek 1)) = true := by
    rw [peek_eq_rest, peek_eq_rest, hpoint]
    exact hd
  have hfurther : (((s.pass ds).skip 1).advanceWhile fun s => Lexeme.isDigit (s.peek 0)) =
      .ok (((s.pass ds).skip 1).pass (d :: places)) :=
    advanceWhile_digits (by simpa [hd] using hplaces) hend (rest_past hpoint)
  rw [scanNumber]
  simp only [bind, Except.bind, advanceWhile_digits hds (by simp; decide) h, hahead, if_true,
    advance_of_getElem? (getElem?_of_rest hpoint), hfurther]
  rw [pass_append]
  rfl

/-- A word goes on for as long as its characters can continue it. -/
theorem scanWord_run (htext : ∀ c ∈ text, Lexeme.isWordPart c = true)
    (hend : ∀ c ∈ rest.head?, Lexeme.isWordPart c = false) (h : s.rest = text ++ rest) :
    s.scanWord = .ok ((s.pass text).add
      (Token.Kind.ofWord (String.ofList (s.pass text).taken)) .nil) := by
  rw [scanWord, advanceWhile_run (peek_zero_eq_any (by decide)) (by decide) htext hend h]
  rfl

/-! ### Steps -/

open Lexeme in
/-- A step, by the character that it begins with. -/
theorem scanToken_of_rest (h : s.rest = c :: rest) :
    s.scanToken =
      match single? c, double? c with
      | some kind, _ => .ok ((s.past c).add kind .nil)
      | none, some (wide, alone) =>
        if rest.head? = some '=' then .ok (((s.past c).past '=').add wide .nil)
        else .ok ((s.past c).add alone .nil)
      | none, none =>
        if c = '/' then
          if rest.head? = some '/' then
            ((s.past c).past '/').advanceWhile fun s => s.peek 0 ≠ '\n' && !s.isAtEnd
          else .ok ((s.past c).add .slash .nil)
        else if isIgnored c || c = '\n' then .ok (s.past c)
        else if c = '"' then (s.past c).scanString
        else if isDigit c then (s.past c).scanNumber
        else if isLetter c then (s.past c).scanWord
        else .error { fault := .stray c s.line s.column, scanner := s.past c } := by
  rw [scanToken, advance_of_getElem? (getElem?_of_rest h)]
  by_cases hnewline : c = '\n'
  · subst hnewline
    rfl
  · -- any other character is passed by the move over it
    have haccept (d : Char) (hd : d ≠ '\n') : (s.skip 1).accept d =
        if rest.head? = some d then (true, (s.skip 1).past d) else (false, s.skip 1) := by
      rw [accept_eq_rest, ← past_of_ne hnewline, rest_past h, past_of_ne hd]
    simp only [bind, Except.bind, past_of_ne hnewline]
    rw [haccept '=' (by decide), haccept '/' (by decide)]
    cases single? c with
    | some kind => rfl
    | none =>
      cases double? c with
      | some kinds =>
        show Except.ok _ = _
        split <;> rfl
      | none =>
        show (if c = '/' then _ else _) = _
        simp only [hnewline, decide_false, Bool.or_false, if_false]
        split
        · split <;> rfl
        · rfl

end LoxLang.Scanner
