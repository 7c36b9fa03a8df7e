import LoxLang.Proofs.Lexical.Moves
import LoxLang.Proofs.Lexical.Numerals
import Mathlib.Data.Nat.Find
import Mathlib.Tactic.FinCases

/-!
# `LoxLang.Proofs.Lexical.Pieces`: the longest piece is taken

A scanner looks at the next character and a few behind it, and takes
what the grammar calls the longest piece of the text that is ahead.

* `exists_longest`: a text begins with a longest piece, or is blocked;
* `Scanner.scanToken_gap`, `Scanner.scanToken_lexeme`: a longest piece
  is passed, and the token of a lexeme is added;
* `Scanner.scanToken_openString`, `Scanner.scanToken_stray`: where the
  text is blocked, the step stops.
-/

set_option autoImplicit false

namespace LoxLang

open Lexeme

/-! ### Longest pieces -/

/-- No piece goes on behind a longest one. -/
theorem Piece.Longest.not_isPiece_append {text more rest : List Char}
    (h : Piece.Longest text (more ++ rest)) (hne : more ≠ []) : ¬ IsPiece (text ++ more) := by
  intro hpiece
  have hle := h.longest (text ++ more) (by simp [← List.append_assoc]) hpiece
  have hpos := List.length_pos_iff.mpr hne
  rw [List.length_append] at hle
  omega

/-- The character behind a longest piece does not make a longer one. -/
theorem Piece.Longest.not_isPiece_head {text rest : List Char} (h : Piece.Longest text rest)
    {c : Char} (hc : c ∈ rest.head?) : ¬ IsPiece (text ++ [c]) := by
  cases rest with
  | nil => cases hc
  | cons d rest =>
    obtain rfl : d = c := Option.some.inj hc
    exact @Longest.not_isPiece_append text [d] rest h (List.cons_ne_nil d [])

/-- Every word is a lexeme, reserved or not. -/
theorem Lexeme.IsWord.isPiece {text : List Char} (h : IsWord text) : IsPiece text := by
  by_cases hreserved : ∃ kind, (String.ofList text, kind) ∈ reservedWords
  · obtain ⟨kind, hkind⟩ := hreserved
    exact .lexeme (.keyword h hkind)
  · exact .lexeme (.identifier h (not_exists.mp hreserved))

/-- The first character of a piece is a piece itself, unless it is a
quote. -/
theorem IsPiece.exists_cons {text : List Char} (h : IsPiece text) :
    ∃ c tail, text = c :: tail ∧ (c = '"' ∨ IsPiece [c]) := by
  have hword {c : Char} (hc : c.isAlpha ∨ c = '_') : IsPiece [c] :=
    IsWord.isPiece (.intro hc (by simp))
  have hdigits {ds : List Char} (h : IsDigits ds) :
      ∃ c tail, ds = c :: tail ∧ IsPiece [c] := by
    obtain ⟨c, tail, rfl⟩ := List.exists_cons_of_ne_nil h.1
    exact ⟨c, tail, rfl, .lexeme (.whole ⟨by simp, by simpa using h.2 c (by simp)⟩)⟩
  cases h with
  | gap h =>
    cases h with
    | blank h => exact ⟨_, _, rfl, .inr (.gap (.blank h))⟩
    | comment =>
      have hslash : (['/'], .slash) ∈ operators := by decide
      exact ⟨_, _, rfl, .inr (.lexeme (.operator hslash))⟩
  | lexeme h =>
    cases h with
    | operator h =>
      have hall : ∀ o ∈ operators, o.1 ≠ [] ∧ o.1.take 1 ∈ operators.map (·.1) := by decide
      obtain ⟨hne, hhead⟩ := hall _ h
      obtain ⟨c, tail, rfl⟩ := List.exists_cons_of_ne_nil hne
      obtain ⟨⟨_, kind⟩, hmem, rfl⟩ := List.mem_map.mp hhead
      exact ⟨c, tail, rfl, .inr (.lexeme (.operator hmem))⟩
    -- the quote alone is no piece: a string needs another one
    | string => exact ⟨_, _, rfl, .inl rfl⟩
    | whole h =>
      obtain ⟨c, tail, rfl, hpiece⟩ := hdigits h
      exact ⟨c, tail, rfl, .inr hpiece⟩
    | fraction h =>
      obtain ⟨c, tail, rfl, hpiece⟩ := hdigits h
      exact ⟨c, _, rfl, .inr hpiece⟩
    | keyword h =>
      obtain ⟨hc, -⟩ := h
      exact ⟨_, _, rfl, .inr (hword hc)⟩
    | identifier h =>
      obtain ⟨hc, -⟩ := h
      exact ⟨_, _, rfl, .inr (hword hc)⟩

theorem IsPiece.ne_nil {text : List Char} (h : IsPiece text) : text ≠ [] := by
  obtain ⟨_, _, rfl, -⟩ := h.exists_cons
  exact List.cons_ne_nil _ _

/-- A text that begins with a piece begins with a longest one. -/
theorem exists_longest {text : List Char}
    (h : ∃ piece, piece <+: text ∧ IsPiece piece) :
    ∃ piece rest, text = piece ++ rest ∧ Piece.Longest piece rest := by
  classical
  -- prefixes are told apart by their length, and lengths are bounded by that of the text
  let isPieceOf (n : Nat) : Prop := IsPiece (text.take n)
  obtain ⟨piece, hprefix, hpiece⟩ := h
  have hof {other : List Char} (hother : other <+: text) (h : IsPiece other) :
      isPieceOf other.length := by
    show IsPiece (text.take other.length)
    rwa [← List.prefix_iff_eq_take.mp hother]
  let n := Nat.findGreatest isPieceOf text.length
  have hn : isPieceOf n := Nat.findGreatest_spec hprefix.length_le (hof hprefix hpiece)
  have hle : n ≤ text.length := Nat.findGreatest_le text.length
  refine ⟨text.take n, text.drop n, (List.take_append_drop n text).symm, hn, ?_⟩
  intro other hother hisPiece
  rw [List.take_append_drop] at hother
  rw [List.length_take_of_le hle]
  exact Nat.le_findGreatest hother.length_le (hof hother hisPiece)

/-- A text that is left begins with a longest piece, or is blocked. -/
theorem longest_or_blocked (line : Int) (before : List Char) {text : List Char}
    (hne : text ≠ []) :
    (∃ piece rest, text = piece ++ rest ∧ Piece.Longest piece rest) ∨
      ∃ error, Blocked line before text error := by
  by_cases hpiece : ∃ piece, piece <+: text ∧ IsPiece piece
  · exact .inl (exists_longest hpiece)
  · obtain ⟨c, rest, rfl⟩ := List.exists_cons_of_ne_nil hne
    refine .inr ?_
    by_cases hc : ∃ tail, IsPiece (c :: tail)
    -- a character that begins some piece is one itself, or a quote that is not closed
    · obtain ⟨tail, h⟩ := hc
      obtain ⟨_, _, ⟨⟩, rfl | hsingle⟩ := h.exists_cons
      · refine ⟨_, .openString fun hquote => hpiece ?_⟩
        obtain ⟨body, behind, rfl, hbody⟩ := List.eq_append_cons_of_mem hquote
        exact ⟨_, ⟨behind, by simp⟩, .lexeme (.string hbody)⟩
      · exact absurd ⟨[c], ⟨rest, rfl⟩, hsingle⟩ hpiece
    · exact ⟨_, .stray (not_exists.mp hc)⟩

/-! ### Operators -/

theorem mem_operators_of_single? {c : Char} {kind : Token.Kind} (h : single? c = some kind) :
    ([c], kind) ∈ operators := by
  unfold single? at h
  split at h <;> cases h <;> decide

theorem mem_operators_of_double? {c : Char} {wide alone : Token.Kind}
    (h : double? c = some (wide, alone)) :
    ([c, '='], wide) ∈ operators ∧ ([c], alone) ∈ operators := by
  unfold double? at h
  split at h <;> cases h <;> decide

/-- A step where the next character is no operator. -/
theorem Scanner.scanToken_of_not_operator {s : Scanner} {c : Char} {rest : List Char}
    (h : ∀ kind, ([c], kind) ∉ operators) (hrest : s.rest = c :: rest) :
    s.scanToken =
      if isIgnored c || c = '\n' then .ok (s.past c)
      else if c = '"' then (s.past c).scanString
      else if isDigit c then (s.past c).scanNumber
      else if isLetter c then (s.past c).scanWord
      else .error { fault := .stray c s.line s.column, scanner := s.past c } := by
  -- what the two tables have is an operator of the grammar
  have hsingle : single? c = none :=
    Option.eq_none_iff_forall_ne_some.mpr fun kind hc =>
      h kind (mem_operators_of_single? hc)
  have hdouble : double? c = none :=
    Option.eq_none_iff_forall_ne_some.mpr fun kinds hc =>
      h kinds.2 (mem_operators_of_double? hc).2
  have hslash : c ≠ '/' := by
    rintro rfl
    exact h .slash (by decide)
  rw [scanToken_of_rest hrest, hsingle, hdouble]
  exact if_neg hslash

/-- Blanks, quotes, letters, digits and underscores are no operators. -/
theorem not_mem_operators {c : Char}
    (hc : c.isAlphanum ∨ c ∈ ['_', '"', ' ', '\t', '\r', '\n']) (kind : Token.Kind) :
    ([c], kind) ∉ operators := by
  intro h
  have hall : operators.all (fun o => o.1.all fun d =>
      ¬ (d.isAlphanum ∨ d ∈ ['_', '"', ' ', '\t', '\r', '\n'])) = true := by decide
  have hchars := List.all_eq_true.mp (List.all_eq_true.mp hall _ h) c (by simp)
  exact of_decide_eq_true hchars hc

/-! ### Gaps -/

theorem isIgnored_or_newline_iff {c : Char} :
    (isIgnored c || c = '\n') = true ↔ c ∈ [' ', '\t', '\r', '\n'] := by
  simp [isIgnored]
  grind

/-- The character behind a comment is a newline. -/
theorem Piece.Longest.head?_of_comment {body rest : List Char} (hbody : '\n' ∉ body)
    (h : Piece.Longest ('/' :: '/' :: body) rest) :
    ∀ c ∈ rest.head?, decide (c ≠ '\n') = false := by
  intro c hc
  by_contra hne
  have hc' : c ≠ '\n' := by simpa using hne
  refine h.not_isPiece_head hc (.gap (@Piece.IsGap.comment (body ++ [c]) ?_))
  simp [hbody, hc'.symm]

/-- A gap is passed. -/
theorem Scanner.scanToken_gap {s : Scanner} {text rest : List Char} (h : Piece.IsGap text)
    (hlongest : Piece.Longest text rest) (hrest : s.rest = text ++ rest) :
    s.scanToken = .ok (s.pass text) := by
  cases h with
  | @blank c h =>
    have hoperator : ∀ kind, ([c], kind) ∉ operators :=
      not_mem_operators (.inr (List.mem_cons_of_mem _ (List.mem_cons_of_mem _ h)))
    rw [scanToken_of_not_operator hoperator hrest]
    exact if_pos (isIgnored_or_newline_iff.mpr h)
  | @comment body h =>
    have hmore (t : Scanner) :
        (t.peek 0 ≠ '\n' && !t.isAtEnd) = t.rest.head?.any (· ≠ '\n') := by
      cases hahead : t.rest with
      | nil => simp [isAtEnd_iff_rest.mpr hahead]
      | cons c rest => simp [peek_zero (getElem?_of_rest hahead), isAtEnd_of_rest_cons hahead]
    rw [scanToken_of_rest hrest]
    show ((s.past '/').past '/').advanceWhile _ = _
    exact advanceWhile_run hmore (by decide) (by simp; grind) (hlongest.head?_of_comment h)
      (rest_past (rest_past hrest))

/-! ### Numbers and words -/

theorem Scanner.scanToken_digit {s : Scanner} {c : Char} {rest : List Char}
    (hc : c.isDigit = true) (hrest : s.rest = c :: rest) :
    s.scanToken = (s.past c).scanNumber := by
  have hkinds : (isIgnored c || c = '\n') = false ∧ c ≠ '"' := by
    have hall : digits.all (fun d => (isIgnored d || d = '\n') = false ∧ d ≠ '"') = true := by
      decide
    exact of_decide_eq_true (List.all_eq_true.mp hall c (mem_digits hc))
  rw [scanToken_of_not_operator (not_mem_operators (.inl (by simp [Char.isAlphanum, hc]))) hrest,
    hkinds.1, if_neg Bool.false_ne_true, if_neg hkinds.2]
  exact if_pos hc

/-- Letters and underscores are of no other class. -/
theorem classes_of_letter {c : Char} (hc : c.isAlpha ∨ c = '_') :
    (isIgnored c || c = '\n') = false ∧ c ≠ '"' ∧ isDigit c = false := by
  have hall : (digits ++ ['"', ' ', '\t', '\r', '\n']).all
      (fun d => ¬ (d.isAlpha ∨ d = '_')) = true := by decide
  have hnot : c ∉ digits ++ ['"', ' ', '\t', '\r', '\n'] := fun h =>
    of_decide_eq_true (List.all_eq_true.mp hall c h) hc
  rw [List.mem_append, List.mem_cons, not_or, not_or] at hnot
  obtain ⟨hdigit, hquote, hblank⟩ := hnot
  refine ⟨?_, hquote, ?_⟩
  · rwa [← Bool.not_eq_true, isIgnored_or_newline_iff]
  · rw [← Bool.not_eq_true]
    exact fun h => hdigit (mem_digits h)

theorem Scanner.scanToken_letter {s : Scanner} {c : Char} {rest : List Char}
    (hc : c.isAlpha ∨ c = '_') (hrest : s.rest = c :: rest) :
    s.scanToken = (s.past c).scanWord := by
  obtain ⟨hgap, hquote, hdigit⟩ := classes_of_letter hc
  have hoperator : ∀ kind, ([c], kind) ∉ operators := by
    refine not_mem_operators ?_
    rcases hc with hc | rfl
    · exact .inl (by simp [Char.isAlphanum, hc])
    · exact .inr (by simp)
  have hletter : isLetter c = true := by simpa [isLetter] using hc
  rw [scanToken_of_not_operator hoperator hrest, hgap, if_neg Bool.false_ne_true, if_neg hquote,
    hdigit, if_neg Bool.false_ne_true, if_pos hletter]

/-! ### Lexemes -/

/-- An operator is one character, alone or in front of an equals sign
that it can take. -/
theorem class_of_operator {text : List Char} {kind : Token.Kind}
    (h : (text, kind) ∈ operators) :
    (∃ c, text = [c] ∧ single? c = some kind) ∨
      (∃ c wide, text = [c] ∧ double? c = some (wide, kind)) ∨
      (∃ c alone, text = [c, '='] ∧ double? c = some (kind, alone)) ∨
      text = ['/'] ∧ kind = .slash := by
  generalize ho : (text, kind) = o at h
  obtain rfl : text = o.1 := congrArg Prod.fst ho
  obtain rfl : kind = o.2 := congrArg Prod.snd ho
  clear ho
  fin_cases h
  all_goals first
    | exact .inl ⟨_, rfl, rfl⟩
    | exact .inr (.inl ⟨_, _, rfl, rfl⟩)
    | exact .inr (.inr (.inl ⟨_, _, rfl, rfl⟩))
    | exact .inr (.inr (.inr ⟨rfl, rfl⟩))

theorem single?_of_double? {c : Char} {kinds : Token.Kind × Token.Kind}
    (h : double? c = some kinds) : single? c = none := by
  unfold double? at h
  split at h <;> first | rfl | cases h

theorem Scanner.scanToken_operator {s : Scanner} {text rest : List Char} {kind : Token.Kind}
    (h : (text, kind) ∈ operators) (hlongest : Piece.Longest text rest)
    (hrest : s.rest = text ++ rest) : s.scanToken = .ok ((s.pass text).add kind .nil) := by
  rcases class_of_operator h with
    ⟨c, rfl, hc⟩ | ⟨c, wide, rfl, hc⟩ | ⟨c, alone, rfl, hc⟩ | ⟨rfl, rfl⟩
  · rw [scanToken_of_rest hrest, hc]
    rfl
  -- alone though it could take an equals sign: then none stands behind it
  · have hequal : rest.head? ≠ some '=' := fun hhead =>
      hlongest.not_isPiece_head hhead (.lexeme (.operator (mem_operators_of_double? hc).1))
    rw [scanToken_of_rest hrest, single?_of_double? hc, hc]
    exact if_neg hequal
  · rw [scanToken_of_rest hrest, single?_of_double? hc, hc]
    exact if_pos rfl
  -- a second slash would make a comment of it
  · have hslash : rest.head? ≠ some '/' := fun hhead =>
      hlongest.not_isPiece_head hhead (.gap (@Piece.IsGap.comment [] (by simp)))
    rw [scanToken_of_rest hrest]
    exact if_neg hslash

theorem Scanner.scanToken_quote {s : Scanner} {rest : List Char} (hrest : s.rest = '"' :: rest) :
    s.scanToken = (s.past '"').scanString := by
  rw [scanToken_of_rest hrest]
  rfl

theorem Scanner.scanToken_string {s : Scanner} {body rest : List Char} (h : '"' ∉ body)
    (hstart : s.start = s.current) (hrest : s.rest = '"' :: (body ++ ['"']) ++ rest) :
    s.scanToken = .ok ((s.pass ('"' :: (body ++ ['"']))).add .string
      (.string (String.ofList body))) := by
  rw [scanToken_quote hrest]
  refine @scanString_closed _ rest _ ?_ h ?_
  · rw [start_past, current_past, hstart]
  · rw [rest_past hrest]
    simp

/-- No digit stands behind the last digits of a number. -/
theorem Piece.Longest.head?_not_isDigit {before ds rest : List Char} (hds : IsDigits ds)
    (h : Piece.Longest (before ++ ds) rest)
    (hpiece : ∀ more, IsDigits more → IsPiece (before ++ more)) :
    ∀ c ∈ rest.head?, isDigit c = false := by
  intro c hc
  by_contra hdigit
  have hdigit' : c.isDigit = true := by simpa [isDigit] using hdigit
  refine h.not_isPiece_head hc ?_
  rw [List.append_assoc]
  refine hpiece _ ⟨by simp, fun d hd => ?_⟩
  rcases List.mem_append.mp hd with hd | hd
  · exact hds.2 d hd
  · rwa [List.mem_singleton.mp hd]

/-- A longest row of digits is taken as a number. -/
theorem Scanner.scanToken_whole {s : Scanner} {ds rest : List Char} (h : IsDigits ds)
    (hlongest : Piece.Longest ds rest) (hrest : s.rest = ds ++ rest) :
    s.scanToken = (s.pass ds).addNumber := by
  have hend : ∀ d ∈ rest.head?, isDigit d = false :=
    @Piece.Longest.head?_not_isDigit [] _ _ h hlongest fun _ hmore =>
      .lexeme (.whole hmore)
  have hpoint (d : Char) (hbehind : ['.', d] <+: rest) : isDigit d = false := by
    obtain ⟨rest, rfl⟩ := hbehind
    -- a digit behind a point would make a longer number
    by_contra hdigit
    have hplaces : IsDigits [d] := ⟨by simp, by simpa [isDigit] using hdigit⟩
    exact @Piece.Longest.not_isPiece_append _ ['.', d] _ hlongest (by simp)
      (.lexeme (.fraction h hplaces))
  obtain ⟨c, ds, rfl⟩ := List.exists_cons_of_ne_nil h.1
  obtain ⟨hc, hds⟩ := List.forall_mem_cons.mp h.2
  rw [scanToken_digit hc hrest]
  exact scanNumber_whole hds hend hpoint (rest_past hrest)

/-- Digits on both sides of a point are taken as a number. -/
theorem Scanner.scanToken_fraction {s : Scanner} {ds places rest : List Char} (h : IsDigits ds)
    (hplaces : IsDigits places) (hlongest : Piece.Longest (ds ++ '.' :: places) rest)
    (hrest : s.rest = ds ++ '.' :: places ++ rest) :
    s.scanToken = (s.pass (ds ++ '.' :: places)).addNumber := by
  have hend : ∀ d ∈ rest.head?, isDigit d = false := by
    refine @Piece.Longest.head?_not_isDigit (ds ++ ['.']) _ _ hplaces
      (by simpa using hlongest) fun more hmore => ?_
    rw [List.append_assoc]
    exact .lexeme (.fraction h hmore)
  obtain ⟨c, ds, rfl⟩ := List.exists_cons_of_ne_nil h.1
  obtain ⟨hc, hds⟩ := List.forall_mem_cons.mp h.2
  obtain ⟨d, places, rfl⟩ := List.exists_cons_of_ne_nil hplaces.1
  obtain ⟨hd, hplaces'⟩ := List.forall_mem_cons.mp hplaces.2
  rw [scanToken_digit hc hrest]
  exact scanNumber_fraction hds hd hplaces' hend (rest_past hrest)

theorem isWordPart_eq_true_iff {c : Char} :
    isWordPart c = true ↔ (c.isAlpha ∨ c = '_') ∨ c.isDigit := by
  simp [isWordPart, isLetter, isDigit]

/-- A longest word is taken, and its kind is looked up. -/
theorem Scanner.scanToken_word {s : Scanner} {text rest : List Char} (h : IsWord text)
    (hlongest : Piece.Longest text rest) (hstart : s.start = s.current)
    (hrest : s.rest = text ++ rest) :
    s.scanToken = .ok ((s.pass text).add (Token.Kind.ofWord (String.ofList text)) .nil) := by
  obtain @⟨c, tail, hc, htail⟩ := h
  have hend : ∀ d ∈ rest.head?, isWordPart d = false := by
    intro d hd
    by_contra hpart
    refine hlongest.not_isPiece_head hd (IsWord.isPiece (.intro hc fun e he => ?_))
    rcases List.mem_append.mp he with he | he
    · exact htail e he
    · rw [List.mem_singleton.mp he]
      exact isWordPart_eq_true_iff.mp (by simpa using hpart)
  have hall : ∀ d ∈ tail, isWordPart d = true := fun d hd =>
    isWordPart_eq_true_iff.mpr (htail d hd)
  have htaken := taken_pass hstart hrest
  rw [scanToken_letter hc hrest, scanWord_run hall hend (rest_past hrest)]
  rw [pass_cons] at htaken ⊢
  rw [htaken]

theorem ofWord_of_reserved {word : String} {kind : Token.Kind}
    (h : (word, kind) ∈ reservedWords) : Token.Kind.ofWord word = kind := by
  have hall : ∀ w ∈ reservedWords, Token.Kind.ofWord w.1 = w.2 := by decide
  exact hall _ h

theorem ofWord_of_free {word : String} (h : ∀ kind, (word, kind) ∉ reservedWords) :
    Token.Kind.ofWord word = .identifier := by
  have hall : ∀ kind ∈ Token.Kind.keywords, (kind.text, kind) ∈ reservedWords := by decide
  have hnone : Token.Kind.keywords.find? (·.text == word) = none := by
    rw [List.find?_eq_none]
    intro kind hkind heq
    rw [beq_iff_eq] at heq
    exact h kind (heq ▸ hall kind hkind)
  rw [Token.Kind.ofWord, hnone, Option.getD_none]

/-- A longest lexeme is passed, and its token is added. -/
theorem Scanner.scanToken_lexeme {s : Scanner} {kind : Token.Kind} {payload : Value}
    {text rest : List Char} (h : Lexeme.Denotes kind payload text)
    (hlongest : Piece.Longest text rest) (hstart : s.start = s.current)
    (hrest : s.rest = text ++ rest) : s.scanToken = .ok ((s.pass text).add kind payload) := by
  have htaken := taken_pass hstart hrest
  cases h with
  | operator h => exact scanToken_operator h hlongest hrest
  | string h => exact scanToken_string h hstart hrest
  | whole h =>
    rw [scanToken_whole h hlongest hrest]
    exact addNumber_of_ofText? (by rw [htaken, Numeral.ofText?_digits h])
  | fraction h hplaces =>
    rw [scanToken_fraction h hplaces hlongest hrest]
    exact addNumber_of_ofText? (by rw [htaken, Numeral.ofText?_fraction h hplaces])
  | keyword h hreserved =>
    rw [scanToken_word h hlongest hstart hrest, ofWord_of_reserved hreserved]
  | identifier h hfree =>
    rw [scanToken_word h hlongest hstart hrest, ofWord_of_free hfree]

/-! ### Blocked texts -/

/-- A string that is not closed is passed to the end of the text. -/
theorem Scanner.scanToken_openString {s : Scanner} {rest : List Char} (h : '"' ∉ rest)
    (hstart : s.start = s.current) (hrest : s.rest = '"' :: rest) :
    s.scanToken = .error
      { fault := .openString (Text.firstLine s.rest) s.line s.column
        scanner := s.pass s.rest } := by
  have hahead : (s.past '"').rest = rest := rest_past hrest
  have hfrom : s.source.toList.drop s.start = s.rest := by rw [hstart, Scanner.rest]
  rw [scanToken_quote hrest, scanString_open (hahead ▸ h), hahead, source_past, start_past, hfrom,
    hrest]
  rfl

/-- A character that begins no piece is passed. -/
theorem Scanner.scanToken_stray {s : Scanner} {c : Char} {rest : List Char}
    (h : ∀ tail, ¬ IsPiece (c :: tail)) (hrest : s.rest = c :: rest) :
    s.scanToken = .error { fault := .stray c s.line s.column, scanner := s.pass [c] } := by
  have hoperator : ∀ kind, ([c], kind) ∉ operators := fun _ hkind =>
    h [] (.lexeme (.operator hkind))
  have hgap : ¬ (isIgnored c || c = '\n') = true := fun hc =>
    h [] (.gap (.blank (isIgnored_or_newline_iff.mp hc)))
  have hquote : ¬ c = '"' := by
    rintro rfl
    exact h ['"'] (.lexeme (@Lexeme.Denotes.string [] (by simp)))
  have hdigit : ¬ isDigit c = true := fun hc =>
    h [] (.lexeme (.whole ⟨by simp, fun d hd => by rwa [List.mem_singleton.mp hd]⟩))
  have hletter : ¬ isLetter c = true := fun hc =>
    h [] (IsWord.isPiece (.intro (by simpa [isLetter] using hc) (by simp)))
  rw [scanToken_of_not_operator hoperator hrest, if_neg hgap, if_neg hquote, if_neg hdigit,
    if_neg hletter]
  rfl

end LoxLang
