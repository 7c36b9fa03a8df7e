import LoxLang.Proofs.Lexical.Pieces

/-!
# `LoxLang.Proofs.Lexical.Tokenisation`: a scan cuts longest pieces

A scanner knows all that the text behind it fixes: its offset, the line
and where that line begins, and the tokens found (`Scanner.Stands`).
Passing a character keeps it so (`Scanner.Stands.past`). Taking a longest
piece leads from one cut of a text to the next, so a scan follows the
cuts of its text step by step.

* `scan_of_cuts`: a text that is cut to its end has the tokens of its
  lexemes and that of its end;
* `scan_of_blocked`: a text is refused where it is blocked;
* `scan_iff_cuts`: since every text is cut to its end or blocked
  somewhere, a scan succeeds and fails exactly so.
-/

set_option autoImplicit false

namespace LoxLang

/-! ### Places -/

theorem Text.endColumn_le_length (before : List Char) :
    Text.endColumn before ≤ before.length := by
  simpa [Text.endColumn] using
    (List.takeWhile_sublist (fun c => decide (c ≠ '\n')) (l := before.reverse)).length_le

theorem Text.endColumn_lt_length {text : List Char} (h : '\n' ∈ text) :
    Text.endColumn text < text.length := by
  refine lt_of_le_of_ne (Text.endColumn_le_length text) fun hlength => ?_
  have hall := List.all_takeWhile (p := fun c => decide (c ≠ '\n')) (l := text.reverse)
  rw [Text.endColumn, ← @List.length_reverse _ text] at hlength
  rw [(List.takeWhile_sublist _).eq_of_length hlength] at hall
  have hne : ∀ c ∈ text, c ≠ '\n' := by simpa using hall
  exact hne _ h rfl

/-- A text without a newline goes on with the line before it, and one
with a newline has the last line for itself. -/
theorem Text.endColumn_append (before text : List Char) :
    Text.endColumn (before ++ text) =
      if '\n' ∈ text then Text.endColumn text else Text.endColumn before + text.length := by
  rw [Text.endColumn, List.reverse_append]
  split
  · next h =>
    -- counting from the end stops inside `text` and never comes to `before`
    have hlt := Text.endColumn_lt_length h
    rw [Text.endColumn, ← @List.length_reverse _ text] at hlt
    rw [List.takeWhile_append, if_neg hlt.ne]
    rfl
  · next h =>
    -- counting from the end goes over all of `text` and on into `before`
    have hall : ∀ c ∈ text.reverse, decide (c ≠ '\n') = true := by simp; grind
    rw [List.takeWhile_append_of_pos hall, List.length_append, List.length_reverse,
      Text.endColumn, Nat.add_comm]

/-- A newline begins a line of its own. -/
theorem Text.endColumn_concat_newline (before : List Char) :
    Text.endColumn (before ++ ['\n']) = 0 := by
  rw [Text.endColumn_append, if_pos (List.mem_singleton_self _)]
  rfl

/-- Any other character goes on with the line before it. -/
theorem Text.endColumn_concat (before : List Char) {c : Char} (hc : c ≠ '\n') :
    Text.endColumn (before ++ [c]) = Text.endColumn before + 1 := by
  rw [Text.endColumn_append, if_neg (by simpa using hc.symm)]
  rfl

/-! ### States of a scanner -/

/-- What a scanner knows behind some text, when it has found the given
tokens. -/
structure Scanner.Stands (line : Int) (before : List Char) (tokens : List Token)
    (rest : List Char) (s : Scanner) : Prop where
  source : s.source.toList = before ++ rest
  current : s.current = before.length
  line : s.line = line + before.count '\n'
  lineStart : s.lineStart + Text.endColumn before = before.length
  tokens : s.tokens.toList = tokens

variable {line : Int} {before text rest : List Char} {tokens : List Token} {s : Scanner}

theorem Scanner.stands_ofText (source : String) (line : Int) :
    (Scanner.ofText source line).Stands line [] [] source.toList where
  source := rfl
  current := rfl
  line := by simp [Scanner.ofText]
  lineStart := rfl
  tokens := rfl

theorem Scanner.Stands.rest_eq (h : s.Stands line before tokens rest) : s.rest = rest := by
  rw [Scanner.rest, h.source, h.current, List.drop_left]

theorem Scanner.Stands.mark (h : s.Stands line before tokens rest) :
    s.mark.Stands line before tokens rest :=
  ⟨h.source, h.current, h.line, h.lineStart, h.tokens⟩

/-- Passing a character moves the scanner behind it. A newline begins a
line there. -/
theorem Scanner.Stands.past {c : Char} (h : s.Stands line before tokens (c :: rest)) :
    (s.past c).Stands line (before ++ [c]) tokens rest := by
  have hsource : s.source.toList = before ++ [c] ++ rest := by
    rw [h.source, List.append_assoc, List.singleton_append]
  have hcurrent : s.current + 1 = (before ++ [c]).length := by
    rw [h.current, List.length_append, List.length_singleton]
  by_cases hc : c = '\n'
  · subst hc
    refine ⟨hsource, hcurrent, ?_, ?_, h.tokens⟩
    · show s.line + 1 = _
      rw [h.line, List.count_append, List.count_singleton_self]
      omega
    · show s.current + 1 + _ = _
      rw [Text.endColumn_concat_newline, hcurrent]
  · rw [Scanner.past_of_ne hc]
    refine ⟨hsource, hcurrent, ?_, ?_, h.tokens⟩
    · show s.line = _
      rw [h.line, List.count_append, List.count_singleton, if_neg (by simpa using hc),
        Nat.add_zero]
    · show s.lineStart + _ = _
      rw [Text.endColumn_concat before hc, ← hcurrent, h.current, ← h.lineStart, Nat.add_assoc]

/-- Passing a text, character by character, moves the scanner behind
it. -/
theorem Scanner.Stands.pass (h : s.Stands line before tokens (text ++ rest)) :
    (s.pass text).Stands line (before ++ text) tokens rest := by
  induction text generalizing before s with
  | nil => rwa [List.append_nil]
  | cons c text ih =>
    rw [Scanner.pass_cons, List.append_cons]
    exact ih h.past

/-- A piece is taken from the mark on. -/
theorem Scanner.Stands.taken (h : s.Stands line before tokens (text ++ rest)) :
    (s.mark.pass text).taken = text :=
  Scanner.taken_pass rfl h.mark.rest_eq

/-- The mark has a column that the text before it fixes. -/
theorem Scanner.Stands.column_mark (h : s.Stands line before tokens rest) :
    s.mark.column = Text.endColumn before := by
  show (s.current : Int) - s.lineStart = _
  have hcurrent := h.current
  have hstart := h.lineStart
  omega

/-- A lexeme that spans lines begins in an earlier line than the one it
ends in. -/
theorem Scanner.Stands.column_pass (h : s.Stands line before tokens (text ++ rest)) :
    (if (s.mark.pass text).lineStart ≤ (s.mark.pass text).start then
        some (s.mark.pass text).column else none) =
      if '\n' ∈ text then none else some (Text.endColumn before : Int) := by
  have hmark : (s.mark.pass text).start = before.length := by
    rw [Scanner.start_pass]
    exact h.current
  have hstart := h.mark.pass.lineStart
  have hbegan := h.lineStart
  rw [Text.endColumn_append, List.length_append] at hstart
  rw [Scanner.column, hmark]
  split at hstart
  · next hnewline =>
    -- the current line begins behind a newline of `text`, which is behind the mark
    have hlt := Text.endColumn_lt_length hnewline
    rw [if_pos hnewline, if_neg (by omega)]
  · next hnewline =>
    rw [if_neg hnewline, if_pos (by omega)]
    congr 1
    omega

/-- Adding the token of a piece that has been taken. -/
theorem Scanner.Stands.add (h : s.Stands line before tokens (text ++ rest))
    (kind : Token.Kind) (payload : Value) :
    ((s.mark.pass text).add kind payload).Stands line (before ++ text)
      (tokens ++ [Lexeme.token line before text kind payload]) rest where
  source := h.mark.pass.source
  current := h.mark.pass.current
  line := h.mark.pass.line
  lineStart := h.mark.pass.lineStart
  tokens := by
    rw [Scanner.add, Array.toList_push, h.mark.pass.tokens, h.taken, h.mark.pass.line,
      h.column_pass]
    rfl

theorem Scanner.Stands.tokens_addEnd (h : s.Stands line before tokens rest) :
    s.addEnd.tokens.toList = tokens ++ [Lexeme.endToken line before] := by
  have hcolumn : (s.current : Int) - s.lineStart = Text.endColumn before := h.column_mark
  rw [Scanner.addEnd, Array.toList_push, h.tokens, h.line, hcolumn, Lexeme.endToken,
    Lexeme.token, List.append_nil]
  rfl

/-! ### Steps -/

theorem Scanner.scanTokens_of_ok {t : Scanner} (hend : s.isAtEnd = false)
    (h : s.mark.scanToken = .ok t) : s.scanTokens = t.scanTokens := by
  rw [Scanner.scanTokens, if_neg (by simp [hend])]
  split <;> simp_all

theorem Scanner.scanTokens_of_error {stuck : Scanner.Stuck} (hend : s.isAtEnd = false)
    (h : s.mark.scanToken = .error stuck) : s.scanTokens = .error stuck := by
  rw [Scanner.scanTokens, if_neg (by simp [hend])]
  split <;> simp_all

theorem Scanner.scanTokens_of_isAtEnd (hend : s.isAtEnd = true) :
    s.scanTokens = .ok s.addEnd := by
  rw [Scanner.scanTokens, if_pos hend]

/-- A gap is taken without a token. -/
theorem Scanner.Stands.scanToken_gap (h : s.Stands line before tokens (text ++ rest))
    (hgap : Piece.IsGap text) (hlongest : Piece.Longest text rest) :
    s.mark.scanToken = .ok (s.mark.pass text) :=
  Scanner.scanToken_gap hgap hlongest h.mark.rest_eq

/-- A lexeme is taken and its token is added. -/
theorem Scanner.Stands.scanToken_lexeme {kind : Token.Kind} {payload : Value}
    (h : s.Stands line before tokens (text ++ rest))
    (hlexeme : Lexeme.Denotes kind payload text) (hlongest : Piece.Longest text rest) :
    s.mark.scanToken = .ok ((s.mark.pass text).add kind payload) :=
  Scanner.scanToken_lexeme hlexeme hlongest rfl h.mark.rest_eq

theorem LexicalFault.error_stray (c : Char) (line column : Int) :
    (LexicalFault.stray c line column).error =
      { cause := .lexical false
        template := Template.ofText "unexpected character '" ++ Template.slot ++ Template.ofText "'"
        snippets := [c.toString]
        line := some line
        column := some column } := by
  have hread : Template.read? "unexpected character '\x7b\x7d'".toList = some
      (Template.ofText "unexpected character '" ++ Template.slot ++ Template.ofText "'") := by
    decide
  exact Error.Draft.error_of_template? hread

theorem LexicalFault.error_openString (snippet : List Char) (line column : Int) :
    (LexicalFault.openString snippet line column).error =
      { cause := .lexical true
        template := Template.ofText "unterminated string"
        snippets := [String.ofList snippet]
        line := some line
        column := some column } := by
  have hread : Template.read? "unterminated string".toList =
      some (Template.ofText "unterminated string") := by decide
  exact Error.Draft.error_of_template? hread

/-- Where its text is blocked a scanner takes a string without end to the
end of the text, or else the character that begins nothing. -/
theorem Scanner.Stands.scanToken_blocked {error : Error}
    (h : s.Stands line before tokens rest) (hblocked : Blocked line before rest error) :
    ∃ stuck text rest', s.mark.scanToken = .error stuck ∧ stuck.fault.error = error ∧
      stuck.scanner = s.mark.pass text ∧ rest = text ++ rest' ∧ text ≠ [] := by
  cases hblocked with
  | @openString behind hquote =>
    refine ⟨_, '"' :: behind, [], scanToken_openString hquote rfl h.mark.rest_eq, ?_, ?_, by simp,
      by simp⟩
    · rw [LexicalFault.error_openString, h.mark.line, h.column_mark, h.mark.rest_eq]
      rfl
    · rw [h.mark.rest_eq]
  | @stray c behind hc =>
    refine ⟨_, [c], behind, scanToken_stray hc h.mark.rest_eq, ?_, rfl, by simp, by simp⟩
    rw [LexicalFault.error_stray, h.mark.line, h.column_mark]

/-- A text of which something is left is not at its end. -/
theorem Scanner.Stands.isAtEnd_eq_false (h : s.Stands line before tokens (text ++ rest))
    (hne : text ≠ []) : s.isAtEnd = false := by
  obtain ⟨c, text, rfl⟩ := List.exists_cons_of_ne_nil hne
  exact Scanner.isAtEnd_of_rest_cons h.rest_eq

/-- A scan goes over a gap without a token. -/
theorem Scanner.Stands.scanTokens_gap (h : s.Stands line before tokens (text ++ rest))
    (hgap : Piece.IsGap text) (hlongest : Piece.Longest text rest) :
    s.scanTokens = (s.mark.pass text).scanTokens :=
  Scanner.scanTokens_of_ok (h.isAtEnd_eq_false hlongest.isPiece.ne_nil)
    (h.scanToken_gap hgap hlongest)

/-- A scan goes over a lexeme and adds its token. -/
theorem Scanner.Stands.scanTokens_lexeme {kind : Token.Kind} {payload : Value}
    (h : s.Stands line before tokens (text ++ rest))
    (hlexeme : Lexeme.Denotes kind payload text) (hlongest : Piece.Longest text rest) :
    s.scanTokens = ((s.mark.pass text).add kind payload).scanTokens :=
  Scanner.scanTokens_of_ok (h.isAtEnd_eq_false hlongest.isPiece.ne_nil)
    (h.scanToken_lexeme hlexeme hlongest)

/-- A scan stops where its text is blocked. -/
theorem Scanner.Stands.scanTokens_blocked {error : Error}
    (h : s.Stands line before tokens rest) (hblocked : Blocked line before rest error) :
    ∃ stuck, s.scanTokens = .error stuck ∧ stuck.fault.error = error ∧
      stuck.scanner.tokens.toList = tokens := by
  obtain ⟨stuck, text, rest', hscan, hfault, hscanner, rfl, hne⟩ := h.scanToken_blocked hblocked
  refine ⟨stuck, Scanner.scanTokens_of_error (h.isAtEnd_eq_false hne) hscan, hfault, ?_⟩
  rw [hscanner]
  exact h.mark.pass.tokens

/-! ### Whole texts -/

/-- A scan comes to every cut of its text. -/
theorem Cuts.exists_stands (h : Cuts line before tokens rest) {source : String}
    (hsource : source.toList = before ++ rest) :
    ∃ s : Scanner, s.Stands line before tokens rest ∧
      (Scanner.ofText source line).scanTokens = s.scanTokens := by
  induction h with
  | @start rest =>
    obtain rfl : source.toList = rest := hsource
    exact ⟨_, Scanner.stands_ofText source line, rfl⟩
  | gap _ hgap hlongest ih =>
    obtain ⟨s, hs, hscan⟩ := ih (by rw [hsource, List.append_assoc])
    exact ⟨_, hs.mark.pass, hscan.trans (hs.scanTokens_gap hgap hlongest)⟩
  | lexeme _ hlexeme hlongest ih =>
    obtain ⟨s, hs, hscan⟩ := ih (by rw [hsource, List.append_assoc])
    exact ⟨_, hs.add _ _, hscan.trans (hs.scanTokens_lexeme hlexeme hlongest)⟩

/-- A text that is cut to its end has the tokens of its lexemes and that
of its end. -/
theorem scan_of_cuts {source : String} (h : Cuts line source.toList tokens []) :
    scan source line = .ok (tokens ++ [Lexeme.endToken line source.toList]) := by
  obtain ⟨s, hs, hscan⟩ := h.exists_stands (List.append_nil _).symm
  rw [scan, hscan, Scanner.scanTokens_of_isAtEnd (Scanner.isAtEnd_iff_rest.mpr hs.rest_eq)]
  exact congrArg Except.ok hs.tokens_addEnd

/-- A text that is blocked behind some cut is refused. -/
theorem scan_of_blocked {source : String} {error : Error}
    (hsource : source.toList = before ++ rest) (h : Cuts line before tokens rest)
    (hblocked : Blocked line before rest error) :
    ∃ stuck, scan source line = .error stuck ∧ stuck.fault.error = error ∧
      stuck.scanner.tokens.toList = tokens := by
  obtain ⟨s, hs, hscan⟩ := h.exists_stands hsource
  obtain ⟨stuck, hstuck, hfault⟩ := hs.scanTokens_blocked hblocked
  exact ⟨stuck, by rw [scan, hscan, hstuck]; rfl, hfault⟩

/-- Behind any cut, a text is cut to its end or blocked somewhere. -/
theorem Cuts.exists_end {before rest : List Char} {tokens : List Token}
    (h : Cuts line before tokens rest) :
    (∃ tokens', Cuts line (before ++ rest) tokens' []) ∨
      ∃ before' tokens' rest' error, before ++ rest = before' ++ rest' ∧
        Cuts line before' tokens' rest' ∧ Blocked line before' rest' error := by
  by_cases hne : rest = []
  · subst hne
    exact .inl ⟨tokens, by rwa [List.append_nil]⟩
  · rcases longest_or_blocked line before hne with ⟨piece, rest', rfl, hlongest⟩ | ⟨error, hblocked⟩
    · obtain ⟨_, _, hcons, -⟩ := hlongest.isPiece.exists_cons
      -- a piece is not empty, so less is left behind it
      have hlt : rest'.length < (piece ++ rest').length := by
        rw [hcons, List.length_append, List.length_cons]
        omega
      rw [← List.append_assoc]
      cases hlongest.isPiece with
      | gap hgap => exact (Cuts.gap h hgap hlongest).exists_end
      | lexeme hlexeme => exact (Cuts.lexeme h hlexeme hlongest).exists_end
    · exact .inr ⟨before, tokens, rest, error, rfl, h, hblocked⟩
termination_by rest.length

/-- A text is cut to its end and has the tokens of its lexemes, or it is
refused where it is blocked. -/
theorem scan_cases (source : String) (line : Int) :
    (∃ lexemes, Cuts line source.toList lexemes [] ∧
      scan source line = .ok (lexemes ++ [Lexeme.endToken line source.toList])) ∨
    ∃ before lexemes rest stuck, source.toList = before ++ rest ∧
      Cuts line before lexemes rest ∧ Blocked line before rest stuck.fault.error ∧
      scan source line = .error stuck := by
  have hend := (@Cuts.start line source.toList).exists_end
  rw [List.nil_append] at hend
  rcases hend with ⟨lexemes, hcuts⟩ | ⟨before, lexemes, rest, _, hsource, hcuts, hblocked⟩
  · exact .inl ⟨lexemes, hcuts, scan_of_cuts hcuts⟩
  · obtain ⟨stuck, hscan, rfl, -⟩ := scan_of_blocked hsource hcuts hblocked
    exact .inr ⟨before, lexemes, rest, stuck, hsource, hcuts, hblocked, hscan⟩

/-- A scan gives the tokens of the longest pieces of its text and that of
its end. It fails exactly where no piece can be cut, with the error of
the first such place. -/
theorem scan_iff_cuts (source : String) (line : Int) :
    (∀ tokens, scan source line = .ok tokens ↔
      ∃ lexemes, Cuts line source.toList lexemes [] ∧
        tokens = lexemes ++ [Lexeme.endToken line source.toList]) ∧
      ∀ error, (∃ stuck, scan source line = .error stuck ∧ stuck.fault.error = error) ↔
        ∃ before lexemes rest, source.toList = before ++ rest ∧
          Cuts line before lexemes rest ∧ Blocked line before rest error := by
  constructor
  · intro tokens
    constructor
    · intro hscan
      rcases scan_cases source line with ⟨lexemes, hcuts, hok⟩ | ⟨_, _, _, _, _, _, _, herror⟩
      · rw [hok] at hscan
        exact ⟨lexemes, hcuts, (Except.ok.inj hscan).symm⟩
      · rw [herror] at hscan
        cases hscan
    · rintro ⟨lexemes, hcuts, rfl⟩
      exact scan_of_cuts hcuts
  · intro error
    constructor
    · rintro ⟨stuck, hscan, rfl⟩
      rcases scan_cases source line with
        ⟨_, _, hok⟩ | ⟨before, lexemes, rest, _, hsource, hcuts, hblocked, herror⟩
      · rw [hok] at hscan
        cases hscan
      · rw [herror] at hscan
        cases hscan
        exact ⟨before, lexemes, rest, hsource, hcuts, hblocked⟩
    · rintro ⟨before, lexemes, rest, hsource, hcuts, hblocked⟩
      obtain ⟨stuck, hscan, herror, -⟩ := scan_of_blocked hsource hcuts hblocked
      exact ⟨stuck, hscan, herror⟩

/-- A text has tokens if something is computed of them. -/
theorem exists_scan_of_toOption {α : Type} {source : String} {f : List Token → α} {a : α}
    (h : (scan source line).toOption.map f = some a) :
    ∃ tokens, scan source line = .ok tokens ∧ f tokens = a := by
  cases hscan : scan source line with
  | error stuck =>
    rw [hscan] at h
    cases h
  | ok tokens =>
    rw [hscan] at h
    exact ⟨tokens, rfl, Option.some.inj h⟩

end LoxLang
