import LoxLang.Grammar
import LoxLang.Proofs.Lexical.Places

/-!
# `LoxLang.Proofs.Lexical.Joining`: texts with a newline between them

A newline is a gap of its own, and no piece goes over it but a string,
the end of which does not depend on what stands behind. So a text that
is cut to its end is cut in the same way in front of a newline and any
more text, and what is behind the newline is cut as if it were alone,
with its lines numbered on.

* `Cuts.append_newline`: the cuts of a text in front of a newline;
* `Cuts.prepend`: those of a text behind one;
* `scan_join`: the tokens of two texts with a newline between them;
* `scan_shift`: the tokens of a text that begins in another line;
* `scanned_newline`: what a scan of two texts with a newline between
  them gives, also where one of them is refused.
-/

set_option autoImplicit false

namespace LoxLang

variable {line : Int} {before text rest : List Char} {tokens : List Token}
  {kind : Token.Kind} {payload : Value}

/-! ### Pieces and blanks -/

/-- A piece that begins with a quote is a string. -/
theorem IsPiece.string_of_quote {tail : List Char} (h : IsPiece ('"' :: tail)) :
    ∃ body, tail = body ++ ['"'] ∧ '"' ∉ body := by
  cases h with
  | gap h =>
    generalize htext : '"' :: tail = text at h
    cases h with
    | blank h =>
      cases htext
      exact absurd h (by decide)
    | comment => cases htext
  | lexeme h =>
    rcases h.head_cases with hoperator | ⟨-, hstring⟩ | hother
    · have hall : ∀ o ∈ Lexeme.operators, o.1.head? ≠ some '"' := by decide
      exact absurd rfl (hall _ hoperator)
    · exact hstring
    · exact absurd hother (by decide)

/-- A string ends at the first quote behind its own, so that none begins
with another. -/
theorem IsPiece.eq_of_prefix_of_quote {tail other : List Char} (h : IsPiece ('"' :: tail))
    (hother : IsPiece other) (hstarts : '"' :: tail <+: other) : '"' :: tail = other := by
  obtain ⟨behind, rfl⟩ := hstarts
  obtain ⟨body, rfl, -⟩ := h.string_of_quote
  obtain ⟨body', hbody', hquote⟩ := IsPiece.string_of_quote hother
  rcases List.eq_nil_or_concat behind with rfl | ⟨more, c, rfl⟩
  · rw [List.append_nil]
  -- the last quote is another one, so the first is inside
  · have hbody'' : body ++ ['"'] ++ more ++ [c] = body' ++ ['"'] := by
      rw [← hbody', List.concat_eq_append, List.append_assoc]
      rfl
    obtain ⟨rfl, -⟩ := List.append_inj' hbody'' rfl
    simp at hquote

/-- A piece with a blank in it is the blank alone, a comment, or begins
with a quote. -/
theorem IsPiece.of_blank {c : Char} (h : IsPiece text) (hc : c ∈ Piece.blanks)
    (hmem : c ∈ text) :
    text = [c] ∨ (∃ body, text = '/' :: '/' :: body ∧ '\n' ∉ body) ∨
      ∃ tail, text = '"' :: tail := by
  cases h with
  | gap h =>
    cases h with
    | blank => exact .inl (by rw [List.mem_singleton.mp hmem])
    | comment h => exact .inr (.inl ⟨_, rfl, h⟩)
  | lexeme h =>
    obtain ⟨-, body, rfl, -⟩ := h.string_of_blank hc hmem
    exact .inr (.inr ⟨_, rfl⟩)

/-- A piece that goes on behind another one and has a blank there is a
comment. -/
theorem IsPiece.comment_of_append {c : Char} {behind : List Char} (h : IsPiece text)
    (hpast : IsPiece (text ++ behind)) (hc : c ∈ Piece.blanks) (hmem : c ∈ behind) :
    ∃ body, text ++ behind = '/' :: '/' :: body ∧ '\n' ∉ body := by
  have hne : behind ≠ [] := List.ne_nil_of_mem hmem
  obtain ⟨d, tail, rfl, -⟩ := h.exists_cons
  rcases hpast.of_blank hc (List.mem_append_right _ hmem) with hblank | hcomment | ⟨_, hquote⟩
  · simp [hne] at hblank
  · exact hcomment
  · obtain rfl : d = '"' := by simpa using congrArg List.head? hquote
    have heq := h.eq_of_prefix_of_quote hpast (List.prefix_append _ _)
    exact absurd (List.self_eq_append_right.mp heq) hne

/-- At the end of a text every piece is a longest one. -/
theorem IsPiece.longest_end (h : IsPiece text) : Piece.Longest text [] where
  isPiece := h
  longest other hother _ := by
    rw [List.append_nil] at hother
    exact hother.length_le

/-- A longest piece is one in front of more text as well, if no piece
goes on to where that begins. -/
theorem Piece.Longest.append_of_stop {c : Char} (h : Piece.Longest text rest)
    (hstop : ∀ behind, ¬ IsPiece (text ++ (rest ++ c :: behind))) (more : List Char) :
    Piece.Longest text (rest ++ c :: more) where
  isPiece := h.isPiece
  longest other hother hpiece := by
    rw [← List.append_assoc] at hother
    have hwhole : text ++ rest <+: (text ++ rest) ++ c :: more := List.prefix_append _ _
    rcases List.prefix_or_prefix_of_prefix hother hwhole with hshort | ⟨behind, rfl⟩
    · exact h.longest other hshort hpiece
    rcases List.prefix_cons_iff.mp ((List.prefix_append_right_inj _).mp hother) with
      rfl | ⟨behind, rfl, -⟩
    · rw [List.append_nil] at hpiece ⊢
      exact h.longest _ List.prefix_rfl hpiece
    · rw [List.append_assoc] at hpiece
      exact absurd hpiece (hstop behind)

/-- A longest piece is one in front of a newline as well. -/
theorem Piece.Longest.append_newline (h : Piece.Longest text rest) (more : List Char) :
    Piece.Longest text (rest ++ '\n' :: more) := by
  refine h.append_of_stop (fun behind hpiece => ?_) more
  -- what goes over the newline is a comment, and a comment does not
  obtain ⟨body, hcomment, hbody⟩ :=
    h.isPiece.comment_of_append (c := '\n') hpiece (by decide) (by simp)
  have hnewline : '\n' ∈ '/' :: '/' :: body := by
    rw [← hcomment]
    simp
  simp [hbody] at hnewline

/-- A blank is a piece, whatever stands behind it. -/
theorem Piece.longest_blank {c : Char} (hc : c ∈ Piece.blanks) (rest : List Char) :
    Piece.Longest [c] rest where
  isPiece := .gap (.blank hc)
  longest other hother hpiece := by
    obtain ⟨d, tail, rfl, -⟩ := hpiece.exists_cons
    obtain ⟨rfl, -⟩ := List.cons_prefix_cons.mp hother
    rcases hpiece.of_blank hc List.mem_cons_self with hblank | ⟨_, hcomment, -⟩ | ⟨_, hquote⟩
    · rw [hblank]
    · obtain ⟨rfl, -⟩ := List.cons_eq_cons.mp hcomment
      exact absurd hc (by decide)
    · obtain ⟨rfl, -⟩ := List.cons_eq_cons.mp hquote
      exact absurd hc (by decide)

/-! ### Cuts -/

/-- What is behind a newline has no part in how the text in front of it
is cut. -/
theorem Cuts.append_newline (h : Cuts line before tokens rest) (more : List Char) :
    Cuts line before tokens (rest ++ '\n' :: more) := by
  induction h with
  | start => exact .start
  | gap _ hgap hlongest ih =>
    rw [List.append_assoc] at ih
    exact .gap ih hgap (hlongest.append_newline more)
  | lexeme _ hlexeme hlongest ih =>
    rw [List.append_assoc] at ih
    exact .lexeme ih hlexeme (hlongest.append_newline more)

/-- Behind a newline a token has the place that it has in the text
alone, with its lines numbered on. -/
theorem Lexeme.token_behind_newline (line : Int) (front before text : List Char)
    (kind : Token.Kind) (payload : Value) :
    Lexeme.token line (front ++ '\n' :: before) text kind payload =
      Lexeme.token (line + front.count '\n' + 1) before text kind payload := by
  have hline : line + (front ++ '\n' :: before ++ text).count '\n' =
      line + front.count '\n' + 1 + (before ++ text).count '\n' := by
    simp only [List.count_append, List.count_cons_self]
    omega
  rw [Lexeme.token, Lexeme.token, hline, Text.endColumn_append_newline]

/-- What is behind a newline is cut as if it were alone. -/
theorem Cuts.prepend {front : List Char} {tokens' : List Token}
    (hfront : Cuts line front tokens' [])
    (h : Cuts (line + front.count '\n' + 1) before tokens rest) :
    Cuts line (front ++ '\n' :: before) (tokens' ++ tokens) rest := by
  induction h with
  | @start rest =>
    rw [List.append_nil]
    exact .gap (hfront.append_newline rest) (.blank (by decide))
      (Piece.longest_blank (by decide) rest)
  | gap _ hgap hlongest ih =>
    rw [← List.cons_append, ← List.append_assoc]
    exact .gap ih hgap hlongest
  | lexeme _ hlexeme hlongest ih =>
    rw [← List.cons_append, ← List.append_assoc, ← List.append_assoc,
      ← Lexeme.token_behind_newline]
    exact .lexeme ih hlexeme hlongest

/-! ### Texts -/

/-- What is in front of the end of a text's tokens. -/
theorem bodyOf_of_cuts {line' : Int} {source : List Char} (h : Cuts line source tokens []) :
    bodyOf (tokens ++ [Lexeme.endToken line' source]) = tokens := by
  have hkinds : ∀ t ∈ tokens, t.kind ≠ .eof := fun t ht => by
    obtain ⟨_, hcut⟩ := h.exists_isCut ht
    exact hcut.kind_ne_eof
  rw [bodyOf, List.takeWhile_append_of_pos (by simpa using hkinds)]
  simp [Lexeme.endToken, Lexeme.token]

/-- Two texts with a newline between them have the tokens of the first
one up to its end, and then those of the second one, which are numbered
on. -/
theorem scan_join {a b : String} {tokensA tokensB : List Token}
    (ha : scan a line = .ok tokensA)
    (hb : scan b (line + a.toList.count '\n' + 1) = .ok tokensB) :
    scan (a ++ "\n" ++ b) line = .ok (bodyOf tokensA ++ tokensB) := by
  obtain ⟨lexemesA, hcutsA, rfl⟩ := ((scan_iff_cuts a line).1 _).mp ha
  obtain ⟨lexemesB, hcutsB, rfl⟩ := ((scan_iff_cuts b _).1 _).mp hb
  have htext : (a ++ "\n" ++ b).toList = a.toList ++ '\n' :: b.toList := by simp
  have hcuts : Cuts line (a ++ "\n" ++ b).toList (lexemesA ++ lexemesB) [] := by
    rw [htext]
    exact hcutsA.prepend hcutsB
  have hend : Lexeme.endToken line (a ++ "\n" ++ b).toList =
      Lexeme.endToken (line + a.toList.count '\n' + 1) b.toList := by
    rw [htext]
    exact Lexeme.token_behind_newline line a.toList b.toList [] .eof .nil
  rw [scan_of_cuts hcuts, hend, bodyOf_of_cuts hcutsA, List.append_assoc]

/-! ### The first line -/

/-- A token some lines further down. -/
def Token.shift (d : Int) (t : Token) : Token :=
  { t with line := t.line + d }

theorem Lexeme.token_shift (line d : Int) (before text : List Char) (kind : Token.Kind)
    (payload : Value) :
    Lexeme.token (line + d) before text kind payload =
      (Lexeme.token line before text kind payload).shift d := by
  have hline : line + d + (before ++ text).count '\n' =
      line + (before ++ text).count '\n' + d := by omega
  rw [Lexeme.token, hline]
  rfl

/-- Where a text begins has no part in how it is cut. -/
theorem Cuts.shift (d : Int) (h : Cuts line before tokens rest) :
    Cuts (line + d) before (tokens.map (Token.shift d)) rest := by
  induction h with
  | start => exact .start
  | gap _ hgap hlongest ih => exact .gap ih hgap hlongest
  | lexeme _ hlexeme hlongest ih =>
    rw [List.map_append, List.map_singleton, ← Lexeme.token_shift]
    exact .lexeme ih hlexeme hlongest

/-- A text that begins some lines further down has the same tokens some
lines further down. -/
theorem scan_shift {source : String} (d : Int) (h : scan source line = .ok tokens) :
    scan source (line + d) = .ok (tokens.map (Token.shift d)) := by
  obtain ⟨lexemes, hcuts, rfl⟩ := ((scan_iff_cuts source line).1 _).mp h
  rw [scan_of_cuts (hcuts.shift d), List.map_append, List.map_singleton, Lexeme.endToken,
    Lexeme.endToken, Lexeme.token_shift]

/-! ### Refused texts -/

/-- What a text behind a newline is refused for is the same as if it were
alone. -/
theorem Blocked.behind_newline {front : List Char} {error : Error}
    (h : Blocked (line + front.count '\n' + 1) before rest error) :
    Blocked line (front ++ '\n' :: before) rest error := by
  have hline : line + front.count '\n' + 1 + before.count '\n' =
      line + (front ++ '\n' :: before).count '\n' := by
    simp only [List.count_append, List.count_cons_self]
    omega
  cases h with
  | openString h =>
    rw [hline, ← Text.endColumn_append_newline front]
    exact .openString h
  | stray h =>
    rw [hline, ← Text.endColumn_append_newline front]
    exact .stray h

/-- A character that begins no piece is refused whatever stands behind
it. -/
theorem Blocked.append_of_stray {error : Error} (h : Blocked line before rest error)
    (hcause : error.cause = .lexical false) (more : List Char) :
    Blocked line before (rest ++ more) error := by
  cases h with
  | openString => cases hcause
  | stray h => exact .stray h

/-- What a scan gives, with the error that is reported for a fault. -/
def scanned (source : String) (line : Int) : Except Error (List Token) :=
  (scan source line).mapError (·.fault.error)

theorem scanned_of_blocked {source : String} {error : Error}
    (hsource : source.toList = before ++ rest) (h : Cuts line before tokens rest)
    (hblocked : Blocked line before rest error) : scanned source line = .error error := by
  obtain ⟨stuck, hscan, rfl, -⟩ := scan_of_blocked hsource h hblocked
  rw [scanned, hscan]
  rfl

theorem scanned_join_error {a b : String} {error : Error} (ha : scan a line = .ok tokens)
    (hb : scanned b (line + a.toList.count '\n' + 1) = .error error) :
    scanned (a ++ "\n" ++ b) line = .error error := by
  obtain ⟨lexemes, hcuts, rfl⟩ := ((scan_iff_cuts a line).1 _).mp ha
  rcases scan_cases b (line + a.toList.count '\n' + 1) with
    ⟨_, _, hok⟩ | ⟨before, lexemes', rest, stuck, hsource, hcuts', hblocked, hscan⟩
  · rw [scanned, hok] at hb
    cases hb
  · rw [scanned, hscan] at hb
    cases hb
    have htext : (a ++ "\n" ++ b).toList = (a.toList ++ '\n' :: before) ++ rest := by
      simp [hsource]
    exact scanned_of_blocked htext (hcuts.prepend hcuts') hblocked.behind_newline

/-- Two texts with a newline between them are scanned one after the
other. If the first one has tokens, the two have these without the one
of its end, and then those of the second, whose lines are numbered on;
and if the second is refused, so are they, with the same error. If the
first one is refused for a character that begins no piece, then so are
they. -/
theorem scanned_newline (a b : String) (line : Int) :
    (∀ tokens, scan a line = .ok tokens →
      scanned (a ++ "\n" ++ b) line =
        (scanned b (line + a.toList.count '\n' + 1)).map (tokens.dropLast ++ ·)) ∧
      ∀ stuck c number column, scan a line = .error stuck →
        stuck.fault = .stray c number column →
          scanned (a ++ "\n" ++ b) line = .error stuck.fault.error := by
  constructor
  · intro tokens ha
    cases hb : scan b (line + a.toList.count '\n' + 1) with
    | error stuck =>
      have hb' : scanned b (line + a.toList.count '\n' + 1) = .error stuck.fault.error := by
        rw [scanned, hb]
        rfl
      rw [scanned_join_error ha hb', hb']
      rfl
    | ok tokensB =>
      obtain ⟨lexemes, hcuts, rfl⟩ := ((scan_iff_cuts a line).1 _).mp ha
      rw [scanned, scanned, scan_join ha hb, hb, bodyOf_of_cuts hcuts, List.dropLast_concat]
      rfl
  · intro stuck c number column ha hfault
    rcases scan_cases a line with
      ⟨_, _, hok⟩ | ⟨before, lexemes, rest, stuck', hsource, hcuts, hblocked, hscan⟩
    · rw [hok] at ha
      cases ha
    · obtain rfl : stuck' = stuck := Except.error.inj (hscan.symm.trans ha)
      have htext : (a ++ "\n" ++ b).toList = before ++ (rest ++ '\n' :: b.toList) := by
        simp [hsource]
      -- an unterminated string could end behind the newline, but this is none
      have hcause : stuck'.fault.error.cause = .lexical false := by rw [hfault]; rfl
      exact scanned_of_blocked htext (hcuts.append_newline b.toList)
        (hblocked.append_of_stray hcause _)

/-- Behind `a // "`, which has one token and its end, the text `"` is
refused in the second line, and `@` is refused whatever stands in the
next line. -/
theorem scanned_newline_openString :
    (∃ tokens error, scan "a // \"" 1 = .ok tokens ∧ scanned "\"" 2 = .error error ∧
      scanned ("a // \"" ++ "\n" ++ "\"") 1 = .error error ∧ error.line = some 2) ∧
      ∃ stuck, scan "@" 1 = .error stuck ∧ stuck.fault = .stray '@' 1 0 ∧
        scanned ("@" ++ "\n" ++ "\"") 1 = .error stuck.fault.error := by
  have hkinds : (scan "a // \"" 1).toOption.map (List.map Token.kind) =
      some [.identifier, .eof] := by decide +kernel
  obtain ⟨tokens, hscan, -⟩ := exists_scan_of_toOption hkinds
  have hblocked : Blocked 2 [] ['"'] _ := .openString List.not_mem_nil
  have hquote : scanned "\"" 2 = .error _ := scanned_of_blocked rfl .start hblocked
  have hstray : scan "@" 1 = .error
      ⟨.stray '@' 1 0, { source := #['@'], current := 1 }⟩ := by cbv
  refine ⟨⟨tokens, _, hscan, hquote, ?_, rfl⟩, _, hstray, rfl,
    (scanned_newline "@" "\"" 1).2 _ _ _ _ hstray rfl⟩
  have hjoined := (scanned_newline "a // \"" "\"" 1).1 tokens hscan
  rw [show (1 : Int) + "a // \"".toList.count '\n' + 1 = 2 from rfl, hquote] at hjoined
  exact hjoined

end LoxLang
