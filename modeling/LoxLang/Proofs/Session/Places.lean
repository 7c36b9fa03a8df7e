import LoxLang.Proofs.Execution.Blame
import LoxLang.Proofs.Lexical.Places
import LoxLang.Proofs.Reporting.Marks
import LoxLang.Proofs.Session.Effects

/-!
# `LoxLang.Proofs.Session.Places`: errors are marked where they arise

A failure of a unit has a place in the text of the unit: where no piece
can be cut, where a token stands that the grammar does not expect, or
where the token stands at which the execution stops
(`Session.Failure.StandsBehind`). The scanner, the parser, the
interpreter and the reporter, which numbers the lines on its own, agree
on it: the diagnosis shows the line of that place and marks the place
itself.

* `Session.run_marks`: how the failure of a unit is marked, with the two
  kinds of token that are not marked.
-/

set_option autoImplicit false

namespace LoxLang

variable {line : Int} {before source rest : List Char} {tokens : List Token} {t : Token}

/-! ### Tokens of programs -/

/-- The tokens in front of the end of a text stand in it. -/
theorem isCut_of_mem_bodyOf {source : String} (hscan : scan source line = .ok tokens)
    (h : t ∈ bodyOf tokens) : ∃ before, Lexeme.IsCut line source.toList before t := by
  rcases isCut_of_scan hscan ((List.takeWhile_sublist _).subset h) with hcut | rfl
  · exact hcut
  · exact absurd rfl (kind_of_mem_bodyOf h)

/-- The tokens that the statements of a text keep stand in it, each of
them in one line. -/
theorem isCut_of_mem_tokens {source : String} {ss : List Stmt}
    (hscan : scan source line = .ok tokens) (hprogram : program tokens = .ok ss)
    (h : t ∈ Stmt.allTokens ss) :
    ∃ before, Lexeme.IsCut line source.toList before t ∧ '\n' ∉ t.lexeme.toList := by
  have hderives := Stmt.readAll_eq_ok_iff.mp (program_eq_ok_iff.mp hprogram)
  obtain ⟨hbody, hstring⟩ := Token.mem_keepable.mp (hderives.tokens_subset h)
  obtain ⟨before, hcut⟩ := isCut_of_mem_bodyOf hscan hbody
  exact ⟨before, hcut, fun hnewline => hstring (hcut.string_of_newline hnewline).1⟩

/-! ### Places of failures -/

namespace Session

/-- A failure stands in a text, the first line of which has the given
number, behind the given part of it. -/
inductive Failure.StandsBehind (line : Int) (source before : List Char) : Failure → Prop where
  /-- No piece can be cut from what is left. -/
  | lexical {tokens : List Token} {rest : List Char} {fault : LexicalFault}
      (hsource : source = before ++ rest) (hcuts : Cuts line before tokens rest)
      (hblocked : Blocked line before rest fault.error) :
      StandsBehind line source before (.lexical fault)
  /-- The misplaced token stands there. -/
  | grammar {m : Misplaced} (hcut : Lexeme.IsCut line source before m.found) :
      StandsBehind line source before (.grammar m)
  /-- The token at which the execution stops stands there. -/
  | execution {fault : Fault} {t : Token} (hcause : fault.error.cause = .execution (some t))
      (hcut : Lexeme.IsCut line source before t) :
      StandsBehind line source before (.execution fault)

/-- A misplaced token that cannot be marked, with the line of its error:
the end of the text, which is in its last line, or a string that goes
over the end of a line, which counts as being where its closing quote
is. -/
inductive Unmarkable (line : Int) (source : List Char) (m : Misplaced) : Prop where
  | ending (hfound : m.found = Lexeme.endToken line source)
      (hline : m.error.line = some (line + source.count '\n'))
  | string {before body : List Char} (hcut : Lexeme.IsCut line source before m.found)
      (hlexeme : m.found.lexeme.toList = '"' :: (body ++ ['"'])) (hnewline : '\n' ∈ body)
      (hline : m.error.line = some (line + (before ++ '"' :: body).count '\n'))

theorem Failure.StandsBehind.prefix {failure : Failure}
    (h : failure.StandsBehind line source before) : before <+: source := by
  cases h with
  | lexical hsource =>
    rw [hsource]
    exact List.prefix_append _ _
  | grammar hcut | execution _ hcut =>
    obtain ⟨_, rfl⟩ := hcut.exists_eq
    exact List.prefix_append _ _

/-- The line of an error that is not marked is also that of a place in
the text. -/
theorem Unmarkable.exists_place {m : Misplaced} (h : Unmarkable line source m) :
    ∃ place, place <+: source ∧ m.error.line = some (line + place.count '\n') := by
  cases h with
  | ending _ hline => exact ⟨source, List.prefix_rfl, hline⟩
  | string hcut hlexeme _ hline =>
    obtain ⟨rest, rfl⟩ := hcut.exists_eq
    exact ⟨_, ⟨'"' :: rest, by simp [hlexeme]⟩, hline⟩

/-! ### Marks -/

variable {source : String}

/-- What is about a token in one line of a unit is marked where the token
stands. -/
theorem marks_of_isAbout {s : Session} {e : Error}
    (hcut : Lexeme.IsCut s.nextLine source.toList before t) (he : e.IsAbout t)
    (hnewline : '\n' ∉ t.lexeme.toList) :
    (begin source s).reporter.Marks e (s.nextLine + before.count '\n')
      (Text.endColumn before) := by
  obtain ⟨l, hl, hstarts⟩ := hcut.exists_line hnewline
  have hline : e.line = some (s.nextLine + before.count '\n') := by
    rw [he.line, hcut.line_eq, List.count_append, List.count_eq_zero_of_not_mem hnewline]
    simp
  have hcolumn : e.column = some (Text.endColumn before : Int) := by
    rw [he.column, hcut.column_eq, if_neg hnewline]
  exact Reporter.marks_of_prefix hline hcolumn he.asked (Reporter.known_of_line hl)
    (he.snippet ▸ hcut.lexeme_ne_empty) (he.snippet ▸ hstarts)

/-- What a text is refused for is marked where it stands. -/
theorem marks_of_blocked {s : Session} {e : Error} (hsource : source.toList = before ++ rest)
    (hblocked : Blocked s.nextLine before rest e) :
    (begin source s).reporter.Marks e (s.nextLine + before.count '\n')
      (Text.endColumn before) := by
  obtain ⟨l, hl, hstarts⟩ := hblocked.exists_line
  rw [← hsource] at hl
  have hasked : e.internal = false ∧ e.diagnosis = true := by cases hblocked <;> exact ⟨rfl, rfl⟩
  exact Reporter.marks_of_prefix hblocked.line_eq hblocked.column_eq hasked
    (Reporter.known_of_line hl) hblocked.snippet.1 hstarts

/-- A misplaced token that goes over the end of a line is a string, and
nothing is marked for it. -/
theorem unmarkable_of_newline {s : Session} {m : Misplaced}
    (hcut : Lexeme.IsCut s.nextLine source.toList before m.found)
    (hnewline : '\n' ∈ m.found.lexeme.toList) :
    Unmarkable s.nextLine source.toList m ∧ m.error.column = none ∧
      (begin source s).reporter.diagnose? m.error = none := by
  obtain ⟨-, body, hlexeme, hbody⟩ := hcut.string_of_newline hnewline
  have he := Misplaced.isAbout hcut.lexeme_ne_empty
  -- the quote is behind every newline of the string
  have hcount : (before ++ m.found.lexeme.toList).count '\n' =
      (before ++ '"' :: body).count '\n' := by simp [hlexeme]
  have hline : m.error.line = some (s.nextLine + (before ++ m.found.lexeme.toList).count '\n') := by
    rw [he.line, hcut.line_eq]
  have hcolumn : m.error.column = none := by rw [he.column, hcut.column_eq, if_pos hnewline]
  refine ⟨.string hcut hlexeme hbody (hcount ▸ hline), hcolumn, ?_⟩
  -- the line of the quote is one of the unit, and has no newline
  obtain ⟨rest, hsource⟩ := hcut.exists_eq
  obtain ⟨l, -, hl⟩ := Text.exists_line_of_place (before ++ m.found.lexeme.toList) rest
  rw [List.append_assoc, ← hsource] at hl
  exact Reporter.diagnose?_of_newline hline (Reporter.known_of_line hl)
    (Text.newline_not_mem_of_mem_lines (List.mem_of_getElem? hl)) (he.snippet ▸ hnewline)

/-- Nothing is marked for the end of a text. -/
theorem unmarkable_of_end {s : Session} {m : Misplaced}
    (hfound : m.found = Lexeme.endToken s.nextLine source.toList) :
    Unmarkable s.nextLine source.toList m ∧ m.error.column = none ∧
      (begin source s).reporter.diagnose? m.error = none := by
  have hempty : m.found.lexeme = "" := by rw [hfound]; rfl
  have hline : m.found.line = s.nextLine + source.toList.count '\n' := by
    rw [hfound, Lexeme.endToken, Lexeme.token, List.append_nil]
  have herror : m.error.line = some m.found.line ∧ m.error.column = none ∧
      m.error.snippet = "" := by
    rw [Misplaced.error, Misplaced.draft, Error.Draft.expected, if_pos hempty]
    exact ⟨rfl, rfl, rfl⟩
  exact ⟨.ending hfound (by rw [herror.1, hline]), herror.2.1,
    Reporter.diagnose?_of_empty herror.2.2⟩

/-- A failure has a place in the text, the line and the column of which
are those of its error, and that very place is marked. Only a misplaced
token can be one that is not marked. -/
theorem Ended.marks {rounds : Nat} {s : Session} {r : Except Failure Unit × Session}
    (h : Ended rounds source s r) :
    r.1 = .ok () ∨ r.1 = .error (.execution .outOfRounds) ∨
      ∃ failure, r.1 = .error failure ∧
        ((∃ before, failure.StandsBehind s.nextLine source.toList before ∧
            r.2.reporter.Marks failure.error (s.nextLine + before.count '\n')
              (Text.endColumn before)) ∨
          ∃ m, failure = .grammar m ∧ Unmarkable s.nextLine source.toList m ∧
            m.error.column = none ∧ r.2.reporter.diagnose? m.error = none) := by
  cases h with
  | @lexical stuck hscan =>
    obtain ⟨before, _, rest, hsource, hcuts, hblocked⟩ :=
      ((scan_iff_cuts source s.nextLine).2 _).mp ⟨stuck, hscan, rfl⟩
    exact .inr (.inr ⟨_, rfl, .inl ⟨before, .lexical hsource hcuts hblocked,
      marks_of_blocked hsource hblocked⟩⟩)
  | @grammar tokens m hscan hprogram =>
    refine .inr (.inr ⟨_, rfl, ?_⟩)
    have hfound := found_mem_of_program (endsWithEnd_of_scan hscan).exists_mem hprogram
    rcases isCut_of_scan hscan hfound with ⟨before, hcut⟩ | hend
    · by_cases hnewline : '\n' ∈ m.found.lexeme.toList
      · exact .inr ⟨m, rfl, unmarkable_of_newline hcut hnewline⟩
      · exact .inl ⟨before, .grammar hcut,
          marks_of_isAbout hcut (Misplaced.isAbout hcut.lexeme_ne_empty) hnewline⟩
    · exact .inr ⟨m, rfl, unmarkable_of_end hend⟩
  | @execution tokens ss fault hscan hprogram hexec =>
    have hregular := execAll_fails rounds ss (allProper_of_program hprogram) s.machine fault hexec
    rcases hregular.token? with rfl | ⟨t, ht⟩
    · exact .inr (.inl rfl)
    -- the fault is about a token of the statements, which stands in the text
    · have hmem := execAll_blames rounds ss (List.Subset.refl _) s.machine fault hexec t ht
      obtain ⟨before, hcut, hnewline⟩ := isCut_of_mem_tokens hscan hprogram hmem
      obtain ⟨habout, hcause⟩ := Fault.isAbout ht
      exact .inr (.inr ⟨_, rfl, .inl ⟨before, .execution hcause hcut,
        marks_of_isAbout hcut habout hnewline⟩⟩)
  | ok => exact .inl rfl

/-- The line of an error is one of the lines of the unit, unless a loop is
cut off. -/
theorem Ended.exists_line {rounds : Nat} {s : Session} {r : Except Failure Unit × Session}
    (h : Ended rounds source s r) {failure : Failure} (hr : r.1 = .error failure) :
    failure = .execution .outOfRounds ∨
      ∃ k l, failure.error.line = some (s.nextLine + (k : Nat)) ∧
        (Text.lines source.toList)[k]? = some l := by
  -- a place in the text has no more newlines in front of it than the text has
  have hplace {place : List Char} (hstarts : place <+: source.toList) :
      ∃ l, (Text.lines source.toList)[place.count '\n']? = some l := by
    obtain ⟨rest, hrest⟩ := hstarts
    obtain ⟨l, -, hl⟩ := Text.exists_line_of_place place rest
    exact ⟨_, hrest ▸ hl⟩
  rcases h.marks with hok | hrounds | ⟨_, hfailure, ⟨before, hstands, hmarks⟩ | ⟨m, rfl, hm, -⟩⟩
  · cases hok.symm.trans hr
  · cases hrounds.symm.trans hr
    exact .inl rfl
  · cases hfailure.symm.trans hr
    obtain ⟨l, hl⟩ := hplace hstands.prefix
    exact .inr ⟨_, l, hmarks.line_eq, hl⟩
  · cases hfailure.symm.trans hr
    obtain ⟨place, hstarts, hline⟩ := hm.exists_place
    obtain ⟨l, hl⟩ := hplace hstarts
    exact .inr ⟨_, l, hline, hl⟩

/-- In any session, the failure of a unit has a place in the text of the
unit: where no piece can be cut, or where the token stands that is
misplaced or at which the execution stops. Its error has the line and
the column of that place, and the reporter marks the place in the known
line with that number. A misplaced token that is the end of the text, or
a string that goes over the end of a line, is not marked: the error has
the last line, or that of the closing quote, and no column. -/
theorem run_marks (rounds : Nat) (source : String) (s : Session) :
    let result := ((run rounds source).run.run s).1
    let reporter := ((run rounds source).run.run s).2.reporter
    result = .ok () ∨ result = .error (.execution .outOfRounds) ∨
      ∃ failure, result = .error failure ∧
        ((∃ before, failure.StandsBehind s.nextLine source.toList before ∧
            reporter.Marks failure.error (s.nextLine + before.count '\n')
              (Text.endColumn before)) ∨
          ∃ m, failure = .grammar m ∧ Unmarkable s.nextLine source.toList m ∧
            m.error.column = none ∧ reporter.diagnose? m.error = none) :=
  (run_ended rounds source s).marks

-- the operator that fails is marked, and not the string in front of it
example :
    let r := (run 1 "print \"-\" == 1 - nil;").run.run (fresh false false)
    (match r.1 with
      | .error failure => (r.2.reporter.diagnose? failure.error).map (·.start)
      | .ok () => none) = some 15 := by decide +kernel

end Session

end LoxLang
