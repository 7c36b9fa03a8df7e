import LoxLang.Proofs.Text.Lines
import Mathlib.Logic.Relation

/-!
# `LoxLang.Proofs.Lexical.Cursor`: where a scanner stands

A scan is a sequence of steps: a mark, and then one piece. Between any
two steps, and also where a fault stops the scan, the scanner knows its
place in the text: its line has as many newlines in front of it as the
text up to the next character, and it knows where that line begins. The
tokens that it has found stand in the text one behind another, with gaps
between them.

The place is known at every character, inside of strings and comments
too. A single move keeps it (`Scanner.Placed.past`), and the loops of a
step are made of such moves (`Scanner.Kept.scanToken`). The tokens are
in order because a scanner between two steps stands behind a cut of the
text (`Scanner.AtCut`).

* `Text.IsLineStart`: where a line begins;
* `Text.Gaps`, `Token.InOrder`: gaps and tokens by their offsets;
* `Scanner.Placed`: what a scanner knows of its place;
* `Scanner.AtCut.step_cases`: what a step does at a cut;
* `Scanner.reaches_placed`: the invariant of a scan.
-/

set_option autoImplicit false

namespace LoxLang

/-! ### Offsets -/

namespace Text

variable {before text rest : List Char}

/-- The part of a text that stands behind another part. -/
theorem slice_append (before text rest : List Char) :
    slice (before ++ (text ++ rest)) before.length (before ++ text).length = text := by
  rw [slice_natCast, List.drop_left, List.length_append, Nat.add_sub_cancel_left, List.take_left]

/-- The offset where the line begins that the end of a text is on: just
behind its last newline, or zero if it has none. -/
def IsLineStart (before : List Char) (offset : Nat) : Prop :=
  ('\n' ∉ before ∧ offset = 0) ∨
    ∃ front behind, before = front ++ '\n' :: behind ∧ '\n' ∉ behind ∧ offset = front.length + 1

theorem isLineStart_nil : IsLineStart [] 0 :=
  .inl ⟨List.not_mem_nil, rfl⟩

/-- Behind a newline a line begins. -/
theorem isLineStart_concat_newline (before : List Char) :
    IsLineStart (before ++ ['\n']) (before.length + 1) :=
  .inr ⟨before, [], rfl, List.not_mem_nil, rfl⟩

/-- Any other character goes on with its line. -/
theorem IsLineStart.concat {offset : Nat} {c : Char} (h : IsLineStart before offset)
    (hc : c ≠ '\n') : IsLineStart (before ++ [c]) offset := by
  rcases h with ⟨hnewline, rfl⟩ | ⟨front, behind, rfl, hbehind, rfl⟩
  · exact .inl ⟨by simp [hnewline, hc.symm], rfl⟩
  · exact .inr ⟨front, behind ++ [c], by simp, by simp [hbehind, hc.symm], rfl⟩

/-- From one offset up to another a text has gaps only, each of them a
longest piece where it stands. So a comment goes on to the end of its
line. -/
inductive Gaps (source : List Char) (start : Nat) : Nat → Prop where
  | none : Gaps source start start
  | gap {stop stop' : Nat} (h : Gaps source start stop) (hlt : stop < stop')
      (hle : stop' ≤ source.length) (hgap : Piece.IsGap (slice source stop stop'))
      (hlongest : Piece.Longest (slice source stop stop') (source.drop stop')) :
      Gaps source start stop'

end Text

/-- The lexemes of tokens are parts of a text that stand one behind
another, with gaps between them. The last one ends at the given
offset. -/
inductive Token.InOrder (source : List Char) : List Token → Nat → Prop where
  | nil : InOrder source [] 0
  | concat {tokens : List Token} {t : Token} {stop start stop' : Nat}
      (h : InOrder source tokens stop) (hle : stop ≤ start)
      (hgaps : Text.Gaps source stop start) (hlt : start < stop') (hle' : stop' ≤ source.length)
      (hlexeme : t.lexeme.toList = Text.slice source start stop') :
      InOrder source (tokens ++ [t]) stop'

variable {line : Int} {before text rest source : List Char} {tokens : List Token} {s t : Scanner}

theorem Text.Gaps.le {start stop : Nat} (h : Gaps source start stop) : start ≤ stop := by
  induction h with
  | none => exact Nat.le_refl start
  | gap _ hlt _ _ _ ih => omega

/-- A cut puts the tokens in front of it in order, and behind the last one
there are gaps. -/
theorem Cuts.inOrder (h : Cuts line before tokens rest) :
    ∃ stop, Token.InOrder (before ++ rest) tokens stop ∧
      Text.Gaps (before ++ rest) stop before.length := by
  induction h with
  | start => exact ⟨0, .nil, .none⟩
  | @gap before text rest tokens _ hgap hlongest ih =>
    obtain ⟨stop, horder, hgaps⟩ := ih
    have hpos := List.length_pos_iff.mpr hlongest.isPiece.ne_nil
    refine ⟨stop, by rwa [List.append_assoc], ?_⟩
    rw [List.append_assoc]
    refine hgaps.gap (by simpa using hpos) (by simp) ?_ ?_
    · rwa [Text.slice_append]
    · rwa [Text.slice_append, ← List.append_assoc, List.drop_left]
  | @lexeme before text rest tokens _ _ _ hlexeme hlongest ih =>
    obtain ⟨stop, horder, hgaps⟩ := ih
    have hpos := List.length_pos_iff.mpr hlongest.isPiece.ne_nil
    rw [List.append_assoc]
    refine ⟨(before ++ text).length, ?_, .none⟩
    refine horder.concat hgaps.le hgaps (by simpa using hpos) (by simp) ?_
    rw [Text.slice_append]
    exact String.toList_ofList

/-! ### Steps of a scan -/

namespace Scanner

/-- One step of a scan: a mark, and then a piece. -/
def Step (s t : Scanner) : Prop :=
  s.isAtEnd = false ∧ s.mark.scanToken = .ok t

/-- A scan stops with a fault. -/
def StopsAt (s : Scanner) (stuck : Stuck) : Prop :=
  s.isAtEnd = false ∧ s.mark.scanToken = .error stuck

/-- Some number of steps leads from one scanner to another. -/
def Reaches : Scanner → Scanner → Prop :=
  Relation.ReflTransGen Step

/-- A scan takes steps until the text is at its end or a fault stops
it. -/
theorem exists_last (s : Scanner) :
    ∃ last, s.Reaches last ∧
      ((last.isAtEnd = true ∧ s.scanTokens = .ok last.addEnd) ∨
        ∃ stuck, last.StopsAt stuck ∧ s.scanTokens = .error stuck) := by
  cases hend : s.isAtEnd with
  | true => exact ⟨s, .refl, .inl ⟨hend, scanTokens_of_isAtEnd hend⟩⟩
  | false =>
    cases hscan : s.mark.scanToken with
    | error stuck =>
      exact ⟨s, .refl, .inr ⟨stuck, ⟨hend, hscan⟩, scanTokens_of_error hend hscan⟩⟩
    | ok t =>
      have hlt : t.left < s.mark.left := left_lt_of_scanToken hscan
      obtain ⟨last, hreaches, hlast⟩ := t.exists_last
      rw [scanTokens_of_ok hend hscan]
      exact ⟨last, .head ⟨hend, hscan⟩ hreaches, hlast⟩
termination_by s.left

/-- Wherever a step ends, what holds behind its first character and is
kept from there on holds. -/
theorem ends_scanToken_mark {P : Scanner → Prop} (hend : s.isAtEnd = false) (h : Kept P)
    (hs : ∀ c, s.source[s.current]? = some c → P (s.mark.past c)) :
    Ends P s.mark.scanToken := by
  obtain ⟨c, hnext⟩ := exists_next hend
  exact h.scanToken hnext (hs c hnext)

/-- A step moves on, be it stuck in the end or not. -/
theorem ends_current_lt (hend : s.isAtEnd = false) :
    Ends (fun t => s.current < t.current) s.mark.scanToken :=
  ends_scanToken_mark hend (kept_current_le (s.current + 1)) fun c _ =>
    (current_past c s.mark).ge

theorem kept_start (start : Nat) : Kept fun t => t.start = start where
  past _ h := by rwa [start_past]
  add _ _ h := h

/-- A step does not move the mark. -/
theorem ends_start_eq (hend : s.isAtEnd = false) :
    Ends (fun t => t.start = s.current) s.mark.scanToken :=
  ends_scanToken_mark hend (kept_start s.current) fun c _ => start_past c s.mark

/-! ### Places -/

/-- What a scanner knows of its place in a text, the first line of which
has the given number. -/
structure Placed (source : List Char) (line : Int) (s : Scanner) : Prop where
  source_eq : s.source.toList = source
  start_le : s.start ≤ s.current
  current_le : s.current ≤ source.length
  line : s.line = line + (source.take s.current).count '\n'
  lineStart : Text.IsLineStart (source.take s.current) s.lineStart

theorem placed_ofText (source : String) (line : Int) :
    (ofText source line).Placed source.toList line where
  source_eq := rfl
  start_le := Nat.le_refl 0
  current_le := Nat.zero_le _
  line := by simp [ofText]
  lineStart := Text.isLineStart_nil

theorem Placed.mark (h : s.Placed source line) : s.mark.Placed source line :=
  ⟨h.source_eq, Nat.le_refl _, h.current_le, h.line, h.lineStart⟩

theorem Placed.add (h : s.Placed source line) (kind : Token.Kind) (payload : Value) :
    (s.add kind payload).Placed source line :=
  ⟨h.source_eq, h.start_le, h.current_le, h.line, h.lineStart⟩

/-- Passing a character, a scanner goes on to know its place. Whether the
new line is begun before a newline is moved over or behind it, it begins
at the same offset (`advance_beginBehind`). -/
theorem Placed.past {c : Char} (hnext : s.source[s.current]? = some c)
    (h : s.Placed source line) : (s.past c).Placed source line := by
  have hc : source[s.current]? = some c := by rw [← h.source_eq, Array.getElem?_toList, hnext]
  have hlt : s.current < source.length := (List.getElem?_eq_some_iff.mp hc).1
  have htake : source.take (s.current + 1) = source.take s.current ++ [c] := by
    rw [List.take_add_one, hc]
    rfl
  have hlength : (source.take s.current).length = s.current := List.length_take_of_le hlt.le
  have hstart : s.start ≤ s.current + 1 := Nat.le_succ_of_le h.start_le
  by_cases hnewline : c = '\n'
  · subst hnewline
    refine ⟨h.source_eq, hstart, hlt, ?_, ?_⟩
    · show s.line + 1 = line + (source.take (s.current + 1)).count '\n'
      rw [htake, List.count_append, List.count_singleton_self, h.line]
      omega
    · show Text.IsLineStart (source.take (s.current + 1)) (s.current + 1)
      have hbegin := Text.isLineStart_concat_newline (source.take s.current)
      rwa [hlength, ← htake] at hbegin
  · rw [past_of_ne hnewline]
    refine ⟨h.source_eq, hstart, hlt, ?_, ?_⟩
    · show s.line = line + (source.take (s.current + 1)).count '\n'
      rw [htake, List.count_append, List.count_singleton, if_neg (by simpa using hnewline), h.line,
        Nat.add_zero]
    · show Text.IsLineStart (source.take (s.current + 1)) s.lineStart
      rw [htake]
      exact h.lineStart.concat hnewline

/-- Every move of a scanner keeps its place known, inside a piece as
well as between pieces. -/
theorem kept_placed (source : List Char) (line : Int) : Kept (Placed source line) where
  past := Placed.past
  add kind payload h := h.add kind payload

/-- A step leads to a known place, also where it stops. -/
theorem Placed.scanToken (h : s.Placed source line) (hend : s.isAtEnd = false) :
    Ends (Placed source line) s.mark.scanToken :=
  ends_scanToken_mark hend (kept_placed source line) fun _ hnext => h.mark.past hnext

theorem Placed.of_reaches (h : s.Placed source line) (hreaches : s.Reaches t) :
    t.Placed source line := by
  induction hreaches with
  | refl => exact h
  | tail _ hstep ih =>
    obtain ⟨hend, hscan⟩ := hstep
    have hends := ih.scanToken hend
    rwa [hscan] at hends

/-! ### Scanners at cuts -/

/-- The tokens that a scanner has found are in order in a text, with gaps
from the last one up to the given offset. -/
def Ordered (source : List Char) (offset : Nat) (s : Scanner) : Prop :=
  ∃ stop, Token.InOrder source s.tokens.toList stop ∧ Text.Gaps source stop offset

/-- A scanner stands behind what has been cut of a text. -/
inductive AtCut (line : Int) (source : List Char) (s : Scanner) : Prop where
  | intro {before rest : List Char} {tokens : List Token} (hsource : source = before ++ rest)
      (hcuts : Cuts line before tokens rest) (hstands : s.Stands line before tokens rest)

theorem atCut_ofText (source : String) (line : Int) :
    (ofText source line).AtCut line source.toList :=
  .intro rfl .start (stands_ofText source line)

theorem AtCut.ordered (h : s.AtCut line source) : s.Ordered source s.current := by
  obtain ⟨rfl, hcuts, hstands⟩ := h
  rw [Ordered, hstands.tokens, hstands.current]
  exact hcuts.inOrder

/-- What a scanner at a cut does next. It takes a piece, which leads to
another cut, or it stops in front of a text from which none can be cut,
and has found no token there. -/
theorem AtCut.step_cases (h : s.AtCut line source) (hend : s.isAtEnd = false) :
    (∃ t, s.mark.scanToken = .ok t ∧ t.AtCut line source) ∨
      ∃ stuck, s.mark.scanToken = .error stuck ∧ stuck.scanner.tokens = s.tokens := by
  obtain @⟨before, rest, tokens, rfl, hcuts, hstands⟩ := h
  have hrest : rest ≠ [] := by
    rintro rfl
    rw [isAtEnd_iff_rest.mpr hstands.rest_eq] at hend
    exact Bool.false_ne_true hend.symm
  -- whether a piece can be cut decides what the scanner does
  rcases longest_or_blocked line before hrest with ⟨text, rest, rfl, hlongest⟩ | ⟨error, hblocked⟩
  · have hsource : before ++ (text ++ rest) = before ++ text ++ rest :=
      (List.append_assoc before text rest).symm
    cases hlongest.isPiece with
    | gap hgap =>
      exact .inl ⟨_, hstands.scanToken_gap hgap hlongest,
        .intro hsource (hcuts.gap hgap hlongest) hstands.mark.pass⟩
    | lexeme hlexeme =>
      exact .inl ⟨_, hstands.scanToken_lexeme hlexeme hlongest,
        .intro hsource (hcuts.lexeme hlexeme hlongest) (hstands.add _ _)⟩
  · obtain ⟨stuck, text, -, hscan, -, hscanner, -⟩ := hstands.scanToken_blocked hblocked
    refine .inr ⟨stuck, hscan, ?_⟩
    rw [hscanner, tokens_pass]
    rfl

/-- Steps lead from cut to cut. -/
theorem AtCut.of_reaches (h : s.AtCut line source) (hreaches : s.Reaches t) :
    t.AtCut line source := by
  induction hreaches with
  | refl => exact h
  | tail _ hstep ih =>
    obtain ⟨hend, hscan⟩ := hstep
    rcases ih.step_cases hend with ⟨_, hok, hcut⟩ | ⟨_, herror, -⟩
    · cases hscan.symm.trans hok
      exact hcut
    · cases hscan.symm.trans herror

/-- A scanner that is stopped has found no further token. -/
theorem AtCut.tokens_of_stopsAt {stuck : Stuck} (h : s.AtCut line source)
    (hstops : s.StopsAt stuck) : stuck.scanner.tokens = s.tokens := by
  obtain ⟨hend, hscan⟩ := hstops
  rcases h.step_cases hend with ⟨_, hok, -⟩ | ⟨_, herror, htokens⟩
  · cases hscan.symm.trans hok
  · cases hscan.symm.trans herror
    exact htokens

/-- In front of every step of the scan of a text, and at its end, the
scanner knows its place, and its tokens are in order, with gaps up to the
next character. Every step moves it on. Where a fault stops the scan all
of this holds too, with gaps from the last token to the mark, behind
which the scanner has been moved on. Steps are all that a scan does: it
ends where they come to the end of the text, or with the fault that stops
them. -/
theorem reaches_placed (source : String) (line : Int) :
    (∀ s, (ofText source line).Reaches s →
      s.Placed source.toList line ∧ s.Ordered source.toList s.current ∧
        (∀ t, s.Step t → s.current < t.current) ∧
        ∀ stuck, s.StopsAt stuck →
          stuck.scanner.Placed source.toList line ∧
            stuck.scanner.Ordered source.toList stuck.scanner.start ∧
            stuck.scanner.start = s.current ∧ s.current < stuck.scanner.current) ∧
      ∃ last, (ofText source line).Reaches last ∧
        ((last.isAtEnd = true ∧ (ofText source line).scanTokens = .ok last.addEnd) ∨
          ∃ stuck, last.StopsAt stuck ∧ (ofText source line).scanTokens = .error stuck) := by
  refine ⟨fun s hreaches => ?_, exists_last _⟩
  have hplaced := (placed_ofText source line).of_reaches hreaches
  have hcut := (atCut_ofText source line).of_reaches hreaches
  refine ⟨hplaced, hcut.ordered, fun t ⟨hend, hscan⟩ => ?_, fun stuck ⟨hend, hscan⟩ => ?_⟩
  · have hlt := ends_current_lt hend
    rwa [hscan] at hlt
  · have hplaced' := hplaced.scanToken hend
    have hstart := ends_start_eq hend
    have hlt := ends_current_lt hend
    rw [hscan] at hplaced' hstart hlt
    -- no token is added on the way to a fault, so the gaps go up to the mark
    have hordered : stuck.scanner.Ordered source.toList stuck.scanner.start := by
      rw [Ordered, hcut.tokens_of_stopsAt ⟨hend, hscan⟩]
      exact hstart ▸ hcut.ordered
    exact ⟨hplaced', hordered, hstart, hlt⟩

/-- The scan of a text with the lines `a`, `"b` and `c`, the first of which
is line 3. Behind the first newline a string without end stops it, and
inside of that a further line has begun. -/
theorem reaches_placed_openString :
    ∃ s stuck, (ofText "a\n\"b\nc" 3).Reaches s ∧ s.StopsAt stuck ∧
      s.line = 4 ∧ s.lineStart = 2 ∧ s.tokens.size = 1 ∧
      stuck.scanner.line = 5 ∧ stuck.scanner.lineStart = 5 ∧
      s.Ordered "a\n\"b\nc".toList s.current ∧
      stuck.scanner.Placed "a\n\"b\nc".toList 3 ∧ s.current < stuck.scanner.current := by
  let start := ofText "a\n\"b\nc" 3
  let behindWord := (start.mark.past 'a').add .identifier .nil
  let behindLine := behindWord.mark.past '\n'
  have hrest : (start.mark.past 'a').rest = [] ++ ['\n', '"', 'b', '\n', 'c'] := rfl
  have hword : start.Step behindWord :=
    ⟨rfl, (scanToken_letter (by decide) rfl).trans
      (scanWord_run (by simp) (by rintro c ⟨⟩; rfl) hrest)⟩
  have hline : behindWord.Step behindLine := ⟨rfl, (scanToken_of_rest rfl).trans rfl⟩
  have hstops : behindLine.StopsAt
      ⟨.openString (Text.firstLine behindLine.rest) 4 0, behindLine.mark.pass behindLine.rest⟩ :=
    ⟨rfl, scanToken_openString (by decide) rfl rfl⟩
  have hreaches : start.Reaches behindLine := .tail (.single hword) hline
  obtain ⟨-, hordered, -, hstuck⟩ := (reaches_placed "a\n\"b\nc" 3).1 _ hreaches
  obtain ⟨hplaced, -, -, hlt⟩ := hstuck _ hstops
  exact ⟨_, _, hreaches, hstops, rfl, rfl, rfl, rfl, rfl, hordered, hplaced, hlt⟩

end Scanner

end LoxLang
