import LoxLang.Proofs.Execution.Simulation
import LoxLang.Proofs.Grammar.Correspondence
import LoxLang.Proofs.Lexical.Joining
import LoxLang.Proofs.Session.Places
import Mathlib

/-!
# `LoxLang.Proofs.Session.Joining`: units and one text

Programs that are run one after another do what they do as one text
with newlines between them. The tokens of the joined text are those of
the programs, places included, since the lines of a session are
numbered through; its statements are theirs; and a machine carries
nothing from one program to the next that the joined text would not.

* `Parses.join`: two programs with a newline between them;
* `Session.run_join`: two units one after another and as one;
* `Session.run_joined`: any number of them.
-/

set_option autoImplicit false

namespace LoxLang

variable {line : Int} {source a b : String} {ss ssA ssB : List Stmt}

/-! ### Programs -/

theorem Token.faithful_shift (d : Int) : Token.Faithful (Token.shift d) :=
  ⟨fun _ => rfl, fun _ => rfl⟩

/-- A program is one in whichever line it begins, with its tokens some
lines further down. -/
theorem Parses.shift (d : Int) (h : Parses source line ss) :
    Parses source (line + d) (Stmt.mapAllTokens (Token.shift d) ss) := by
  obtain ⟨tokens, hscan, hprogram⟩ := h
  exact ⟨_, scan_shift d hscan, program_map (Token.faithful_shift d) hprogram⟩

theorem exists_parses {line' : Int} (h : ∃ ss, Parses source line ss) :
    ∃ ss, Parses source line' ss := by
  obtain ⟨ss, h⟩ := h
  have hshift := h.shift (line' - line)
  rw [show line + (line' - line) = line' by omega] at hshift
  exact ⟨_, hshift⟩

/-- Two programs with a newline between them are a program with the
statements of both. -/
theorem Parses.join (ha : Parses a line ssA)
    (hb : Parses b (line + a.toList.count '\n' + 1) ssB) :
    Parses (a ++ "\n" ++ b) line (ssA ++ ssB) := by
  obtain ⟨tokensA, hscanA, hprogramA⟩ := ha
  obtain ⟨tokensB, hscanB, hprogramB⟩ := hb
  exact ⟨_, scan_join hscanA hscanB, program_append hprogramA hprogramB⟩

/-! ### Messages -/

/-- The message for an error depends on the path, on whether it is in
colour, and on the line that the error is about. -/
theorem Reporter.render_congr {r r' : Reporter} {e : Error} (hpath : r.path = r'.path)
    (hcolor : r.color = r'.color) (hlines : ∀ n, e.line = some n → r.lines[n]? = r'.lines[n]?) :
    r.render e = r'.render e := by
  have hdiagnose : r.diagnose? e = r'.diagnose? e := by
    rw [diagnose?, diagnose?]
    cases hline : e.line with
    | none => rfl
    | some n => simp [hlines n hline]
  have hcolored : r.colored = r'.colored := by
    funext style text
    rw [colored, colored, hcolor]
  have htext : r.diagnosisText = r'.diagnosisText := by
    funext d
    rw [diagnosisText, diagnosisText, hcolored]
  rw [render, render, location, location, below, below, diagnosisText?, diagnosisText?, hpath,
    hcolor, hcolored, hdiagnose, htext]

namespace Session

variable {rounds : Nat} {s s' : Session} {r r' q : Except Failure Unit × Session}

/-- A failure of a unit has the same message where the unit is a part of
a longer one, the lines of which have the same numbers. -/
theorem Ended.render_eq {part whole : String} {failure : Failure} (offset : Nat)
    (h : Ended rounds part s r) (h' : Ended rounds whole s' r')
    (hr : r.1 = .error failure) (hr' : r'.1 = .error failure)
    (hpath : s.path = s'.path) (hcolor : s.reporter.color = s'.reporter.color)
    (hnext : s.nextLine = s'.nextLine + offset)
    (hlines : ∀ k l, (Text.lines part.toList)[k]? = some l →
      (Text.lines whole.toList)[offset + k]? = some l) :
    r.2.reporter.render failure.error = r'.2.reporter.render failure.error := by
  rw [h.reporter_of_error hr, h'.reporter_of_error hr']
  refine Reporter.render_congr ?_ ?_ fun n hn => ?_
  · rw [reporter_begin, reporter_begin whole, hpath]
  · rw [reporter_begin, reporter_begin whole]
    exact hcolor
  · rcases h.exists_line hr with rfl | ⟨k, l, hline, hl⟩
    · cases hn
    · obtain rfl := Option.some.inj (hline.symm.trans hn)
      have hpart := @Reporter.known_of_line s.reporter s.path part s.nextLine k l hl
      have hwhole :=
        @Reporter.known_of_line s'.reporter s'.path whole s'.nextLine _ l (hlines k l hl)
      rw [Int.natCast_add, ← Int.add_assoc, ← hnext] at hwhole
      exact hpart.trans hwhole.symm

/-! ### Units -/

/-- Two ways to run text leave the same: the result, the machine, and the
message for a failure. -/
structure Alike (r r' : Except Failure Unit × Session) : Prop where
  result : r.1 = r'.1
  machine : r.2.machine = r'.2.machine
  message : ∀ failure, r.1 = .error failure →
    r.2.reporter.render failure.error = r'.2.reporter.render failure.error

theorem Alike.refl (r : Except Failure Unit × Session) : Alike r r :=
  ⟨rfl, rfl, fun _ _ => rfl⟩

theorem Alike.trans (h : Alike r r') (h' : Alike r' q) : Alike r q where
  result := h.result.trans h'.result
  machine := h.machine.trans h'.machine
  message failure hfailure :=
    (h.message failure hfailure).trans (h'.message failure (h.result ▸ hfailure))

section Join

variable {a b : String} {ssA ssB : List Stmt}

theorem lines_join (a b : String) :
    Text.lines (a ++ "\n" ++ b).toList = Text.lines a.toList ++ Text.lines b.toList := by
  have htext : (a ++ "\n" ++ b).toList = a.toList ++ '\n' :: b.toList := by simp
  rw [htext, Text.lines_append_newline]

/-- If the first of two units fails, the two as one unit fail so. -/
theorem alike_of_first_fails {fault : Fault} {m : Machine}
    (hA : Parses a s.nextLine ssA) (hjoined : Parses (a ++ "\n" ++ b) s.nextLine (ssA ++ ssB))
    (hexec : (execAll rounds ssA).run.run s.machine = (.error fault, m))
    (h : Ended rounds a s r) (h' : Ended rounds (a ++ "\n" ++ b) s r') :
    r.1 = .error (.execution fault) ∧ Alike r r' := by
  obtain ⟨hresult, hmachine⟩ := h.of_parses hA
  obtain ⟨hresult', hmachine'⟩ := h'.of_parses hjoined
  rw [run_execAll_append, hexec] at hresult' hmachine'
  rw [hexec] at hresult hmachine
  refine ⟨hresult, hresult.trans hresult'.symm, hmachine.trans hmachine'.symm, ?_⟩
  intro failure hfailure
  obtain rfl : .execution fault = failure := Except.error.inj (hresult.symm.trans hfailure)
  refine h.render_eq 0 h' hresult hresult' rfl rfl (by simp) fun k l hl => ?_
  rw [lines_join, Nat.zero_add, List.getElem?_append_left (List.getElem?_eq_some_iff.mp hl).1, hl]

/-- If the first of two units ends well, the second one behind it does
what the two do as one unit. -/
theorem alike_of_first_ends {m : Machine} {t : Session}
    (hB : Parses b t.nextLine ssB) (hjoined : Parses (a ++ "\n" ++ b) s.nextLine (ssA ++ ssB))
    (hexec : (execAll rounds ssA).run.run s.machine = (.ok (), m))
    (hmachine : t.machine = { m with events := [] }) (hpath : t.path = s.path)
    (hcolor : t.reporter.color = s.reporter.color)
    (hnext : t.nextLine = s.nextLine + a.toList.count '\n' + 1)
    (h : Ended rounds b t r) (h' : Ended rounds (a ++ "\n" ++ b) s r') : Alike r r' := by
  obtain ⟨hresult, hend⟩ := h.of_parses hB
  obtain ⟨hresult', hend'⟩ := h'.of_parses hjoined
  rw [run_execAll_append, hexec] at hresult' hend'
  -- the machine behind the first unit has lost its notes, and nothing else
  obtain ⟨hsame, events, hsame'⟩ := execAll_unnoted rounds ssB m t.machine ⟨[], hmachine⟩
  rw [← hsame] at hresult
  rw [hsame'] at hend
  refine ⟨hresult.trans hresult'.symm, hend.trans hend'.symm, fun failure hfailure => ?_⟩
  refine h.render_eq (Text.lines a.toList).length h' hfailure
    (hresult'.trans (hresult.symm.trans hfailure)) hpath hcolor ?_ fun k l hl => ?_
  · rw [hnext, Text.length_lines]
    omega
  · rw [lines_join, List.getElem?_append_right (Nat.le_add_right _ _), Nat.add_sub_cancel_left, hl]

/-- Two units one after another, the second one only if the first one
ends well, are alike with the two as one unit. -/
theorem run_join (ha : ∃ ss, Parses a 1 ss) (hb : ∃ ss, Parses b 1 ss) (rounds : Nat)
    (s : Session) :
    Alike ((run rounds a >>= fun _ => run rounds b).run.run s)
      ((run rounds (a ++ "\n" ++ b)).run.run s) := by
  obtain ⟨ssA, hA⟩ := @exists_parses 1 a s.nextLine ha
  obtain ⟨ssB, hB⟩ := @exists_parses 1 b (s.nextLine + a.toList.count '\n' + 1) hb
  have hjoined := hA.join hB
  have hended := run_ended rounds a s
  have hended' := run_ended rounds (a ++ "\n" ++ b) s
  rw [run_bind]
  generalize (run rounds a).run.run s = p at hended
  obtain ⟨result, t⟩ := p
  rcases hexec : (execAll rounds ssA).run.run s.machine with ⟨fault | _, m⟩
  · -- the second unit is not run, nor are its statements in the one unit
    obtain ⟨rfl, halike⟩ := alike_of_first_fails hA hjoined hexec hended hended'
    exact halike
  · obtain ⟨hresult, hmachine⟩ := hended.of_parses hA
    rw [hexec] at hresult hmachine
    obtain rfl : result = .ok () := hresult
    have hcolor : t.reporter.color = s.reporter.color := by
      rw [hended.reporter_of_ok rfl, reporter_begin]
      rfl
    refine alike_of_first_ends ?_ hjoined hexec hmachine hended.path hcolor hended.nextLine
      (run_ended rounds b t) hended'
    rwa [hended.nextLine]

end Join

/-! ### Any number of units -/

/-- Runs units one after another, up to the first that fails. -/
def runAll (rounds : Nat) : List String → Running Unit
  | [] => return
  | unit :: rest => do
    run rounds unit
    runAll rounds rest

/-- Programs with newlines between them are a program. -/
theorem exists_parses_intercalate {units : List String} (hne : units ≠ [])
    (h : ∀ unit ∈ units, ∃ ss, Parses unit 1 ss) :
    ∃ ss, Parses ("\n".intercalate units) 1 ss := by
  induction units with
  | nil => exact absurd rfl hne
  | cons unit units ih =>
    obtain ⟨ss, hunit⟩ := h unit List.mem_cons_self
    cases units with
    | nil =>
      rw [String.intercalate_singleton]
      exact ⟨ss, hunit⟩
    | cons other units =>
      have hothers := ih (List.cons_ne_nil _ _) fun u hu => h u (List.mem_cons_of_mem _ hu)
      obtain ⟨_, hothers⟩ := @exists_parses 1 _ (1 + unit.toList.count '\n' + 1) hothers
      rw [String.intercalate_cons_cons]
      exact ⟨_, hunit.join hothers⟩

/-- What goes on behind a unit may be replaced by something alike. -/
theorem Alike.behind {x y : Running Unit} (h : ∀ s, Alike (x.run.run s) (y.run.run s))
    (unit : String) (s : Session) :
    Alike ((run rounds unit >>= fun _ => x).run.run s)
      ((run rounds unit >>= fun _ => y).run.run s) := by
  rw [run_bind, run_bind]
  rcases (run rounds unit).run.run s with ⟨_ | _, t⟩
  · exact .refl _
  · exact h t

/-- Programs that are run one after another, up to the first that fails,
are alike with one unit that has all of them with newlines between
them: the result is the same, with the place of the failure if there is
one, so are the text printed and the globals in the machine, and so is
the message for a failure. -/
theorem run_joined (rounds : Nat) (units : List String) (hne : units ≠ [])
    (hparses : ∀ unit ∈ units, ∃ ss, Parses unit 1 ss) (s : Session) :
    Alike ((runAll rounds units).run.run s)
      ((run rounds ("\n".intercalate units)).run.run s) := by
  induction units generalizing s with
  | nil => exact absurd rfl hne
  | cons unit units ih =>
    rw [runAll]
    cases units with
    | nil =>
      rw [runAll, String.intercalate_singleton, run_bind]
      rcases (run rounds unit).run.run s with ⟨_ | _, _⟩ <;> exact .refl _
    | cons other units =>
      have hothers : ∀ u ∈ other :: units, ∃ ss, Parses u 1 ss := fun u hu =>
        hparses u (List.mem_cons_of_mem _ hu)
      have hjoined := exists_parses_intercalate (List.cons_ne_nil _ _) hothers
      -- the units behind the first one are one unit, and that is joined to it
      rw [String.intercalate_cons_cons]
      exact (Alike.behind (ih (List.cons_ne_nil _ _) hothers) unit s).trans
        (run_join (hparses unit List.mem_cons_self) hjoined rounds s)

/-- Two units, the first of which ends in a statement without an `else`
and a comment, and the second of which fails in line three. -/
def stringThenUndefined : List String :=
  ["if (true) print \"a\nb\"; // else", "print x;"]

/-- The two units print the same and fail in the same place as one. -/
theorem run_joined_stringThenUndefined :
    let s := fresh true false
    let joined := (run 1 ("\n".intercalate stringThenUndefined)).run.run s
    stringThenUndefined ≠ [] ∧ (∀ unit ∈ stringThenUndefined, ∃ ss, Parses unit 1 ss) ∧
      Alike ((runAll 1 stringThenUndefined).run.run s) joined ∧
      joined.1 = .error (.execution (.undefined
        { kind := .identifier, lexeme := "x", line := 3, column := some 6 })) ∧
      joined.2.machine.printed = "a\nb\n" := by
  have hparses : ∀ unit ∈ stringThenUndefined, ∃ ss, Parses unit 1 ss := by decide +kernel
  refine ⟨by decide, hparses, run_joined 1 _ (by decide) hparses _, ?_, ?_⟩
  · have hfails : (match ((run 1 ("\n".intercalate stringThenUndefined)).run.run
          (fresh true false)).1 with
        | .error (.execution (.undefined name)) =>
          some (name.kind, name.lexeme, name.payload.kind, name.line, name.column)
        | _ => none) = some (.identifier, "x", .nil, 3, some 6) := by decide +kernel
    split at hfails
    · next name hundefined =>
      obtain ⟨kind, lexeme, payload, line, column⟩ := name
      -- nil is the one value of its kind
      cases payload <;> cases hfails
      exact hundefined
    · cases hfails
  · decide +kernel

end Session

end LoxLang
