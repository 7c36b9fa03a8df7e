import LoxLang.Proofs.Execution.Names
import LoxLang.Proofs.Session.Places
import Mathlib

/-!
# `LoxLang.Proofs.Session.Histories`: units one after another

A command line hands unit after unit to a session and reports the
failures. Between two units the session is settled
(`Session.Settled`): it has no lines left, it stands at the globals,
and it goes on to number where the last unit ended. One unit leads from
one settled session to the next (`Session.Settled.step`), so all of
them do, whatever the units are and however they end.

* `Session.after`: the session behind some units;
* `Session.settled_after`: it is settled;
* `Session.history`: what a unit in the middle of others does.
-/

set_option autoImplicit false

namespace LoxLang

namespace Session

variable {rounds : Nat} {unit : String} {units : List String} {s : Session}

/-! ### Handling a unit -/

/-- A failure is reported, and then the lines of its unit are
forgotten. -/
theorem run_handle_error (e : Error) (h : s.reporter.fatal = false) :
    (handle (.error e)).run s =
      (.resumed, { s with
        reporter := { s.reporter with
          lines := ∅
          written := s.reporter.written ++ s.reporter.render e ++ "\n" } }) := by
  obtain ⟨path, source, nextLine, machine, ⟨fatal, color, rpath, lines, written⟩, notes⟩ := s
  cases h
  rfl

theorem run_runReported (rounds : Nat) (unit : String) (s : Session) :
    (runReported rounds unit).run s =
      match (run rounds unit).run.run s with
      | (.ok _, t) => (.resumed, t)
      | (.error failure, t) => (handle (.error failure.error)).run t := by
  rw [runReported, StateT.run_bind]
  rcases (run rounds unit).run.run s with ⟨_ | _, _⟩ <;> rfl

/-! ### Numbers of lines -/

/-- The number of the line behind some units, the first of which begins
in line one. -/
def lineBehind (units : List String) : Int :=
  1 + (units.map fun u => (u.toList.count '\n' : Int) + 1).sum

/-- The numbers of the lines of a unit that is behind others. -/
def ownLines (earlier : List String) (unit : String) : Set Int :=
  Set.Ico (lineBehind earlier) (lineBehind (earlier ++ [unit]))

theorem lineBehind_append (units others : List String) :
    lineBehind (units ++ others) =
      lineBehind units + (others.map fun u => (u.toList.count '\n' : Int) + 1).sum := by
  simp [lineBehind, Int.add_assoc]

theorem lineBehind_concat (units : List String) (unit : String) :
    lineBehind (units ++ [unit]) = lineBehind units + unit.toList.count '\n' + 1 := by
  simp [lineBehind_append, Int.add_assoc]

theorem lineBehind_le_append (units others : List String) :
    lineBehind units ≤ lineBehind (units ++ others) := by
  rw [lineBehind_append]
  have hnonneg : 0 ≤ (others.map fun u => (u.toList.count '\n' : Int) + 1).sum :=
    List.sum_nonneg (by simp; omega)
  omega

/-- Two units have no line number in common. -/
theorem disjoint_ownLines (earlier : List String) (unit : String) (between : List String)
    (other : String) :
    Disjoint (ownLines earlier unit) (ownLines (earlier ++ unit :: between) other) := by
  have hle := lineBehind_le_append (earlier ++ [unit]) between
  rw [List.append_assoc, List.singleton_append] at hle
  exact Set.Ico_disjoint_Ico.mpr ((min_le_left _ _).trans (hle.trans (le_max_right _ _)))

/-- The line of an error is one of the lines of its unit, unless a loop is
cut off. -/
theorem Ended.error_line {r : Except Failure Unit × Session} (h : Ended rounds unit s r)
    (hnext : s.nextLine = lineBehind units) {failure : Failure} (hr : r.1 = .error failure) :
    failure = .execution .outOfRounds ∨
      ∃ n ∈ ownLines units unit, failure.error.line = some n := by
  rcases h.exists_line hr with hrounds | ⟨k, l, hline, hl⟩
  · exact .inl hrounds
  · have hk := (List.getElem?_eq_some_iff.mp hl).1
    rw [Text.length_lines] at hk
    refine .inr ⟨_, ?_, hline⟩
    rw [hnext, ownLines, lineBehind_concat, Set.mem_Ico]
    omega

/-! ### Between units -/

/-- The session behind some units, each of which has been handled. -/
def after (rounds : Nat) (units : List String) (s : Session) : Session :=
  units.foldl (fun s unit => ((runReported rounds unit).run s).2) s

theorem after_concat (rounds : Nat) (units : List String) (unit : String) (s : Session) :
    after rounds (units ++ [unit]) s =
      ((runReported rounds unit).run (after rounds units s)).2 := by
  simp [after]

/-- A session behind some units, between two of them. -/
structure Settled (units : List String) (s : Session) : Prop where
  nextLine : s.nextLine = lineBehind units
  lines : s.reporter.lines = ∅
  fatal : s.reporter.fatal = false
  /-- The interpreter is at the globals, and nothing is around them. -/
  outer : s.machine.chain.outer = []
  place : s.machine.place = {}

theorem settled_fresh (color traced : Bool) : Settled [] (fresh color traced) :=
  ⟨rfl, rfl, rfl, rfl, rfl⟩

/-- A unit leaves the interpreter where it was. -/
theorem Ended.keeps_globals {r : Except Failure Unit × Session} (h : Ended rounds unit s r)
    (houter : s.machine.chain.outer = []) :
    r.2.machine.chain.outer = [] ∧ r.2.machine.place = s.machine.place := by
  by_cases hparses : ∃ ss, Parses unit s.nextLine ss
  · obtain ⟨ss, hparses⟩ := hparses
    obtain ⟨hplace, hchain⟩ := execAll_keeps rounds ss (List.Subset.refl _) s.machine
    rw [(h.of_parses hparses).2]
    exact ⟨hchain.outer_eq_nil houter, hplace⟩
  · rw [h.machine_of_not_parses (not_exists.mp hparses)]
    exact ⟨houter, rfl⟩

/-- Handling a failure changes nothing but what the reporter has. -/
theorem run_runReported_eq (rounds : Nat) (unit : String) (s : Session) :
    ((runReported rounds unit).run s).2 =
      { ((run rounds unit).run.run s).2 with
        reporter := ((runReported rounds unit).run s).2.reporter } := by
  rw [run_runReported]
  rcases (run rounds unit).run.run s with ⟨_ | _, _⟩ <;> rfl

/-- A failure is reported while the lines of its unit are still known. -/
theorem reporter_runReported (rounds : Nat) (unit : String) (h : s.reporter.fatal = false) :
    ((runReported rounds unit).run s).2.reporter =
      match ((run rounds unit).run.run s).1 with
      | .ok _ => (begin unit s).reporter.clear
      | .error failure =>
        { (begin unit s).reporter with
          lines := ∅
          written :=
            s.reporter.written ++ (begin unit s).reporter.render failure.error ++ "\n" } := by
  have hreporter := (run_ended rounds unit s).reporter
  rw [run_runReported]
  generalize (run rounds unit).run.run s = r at hreporter
  obtain ⟨failure | _, t⟩ := r
  · -- nothing has been written since the unit began
    have ht : t.reporter = (begin unit s).reporter := hreporter
    have hfatal : t.reporter.fatal = false := by
      rw [ht, reporter_begin]
      exact h
    have hwritten : (begin unit s).reporter.written = s.reporter.written := by
      rw [reporter_begin]
    simp only [run_handle_error _ hfatal, ht, hwritten]
  · exact hreporter

/-- One unit leads from a settled session to the next. -/
theorem Settled.step (h : s.Settled units) (rounds : Nat) (unit : String) :
    ((runReported rounds unit).run s).2.Settled (units ++ [unit]) := by
  have hended := run_ended rounds unit s
  have hglobals := hended.keeps_globals h.outer
  rw [run_runReported_eq]
  refine ⟨?_, ?_, ?_, hglobals.1, hglobals.2.trans h.place⟩
  · show ((run rounds unit).run.run s).2.nextLine = _
    rw [hended.nextLine, h.nextLine, lineBehind_concat]
  · simp only [reporter_runReported rounds unit h.fatal]
    split <;> rfl
  · simp only [reporter_runReported rounds unit h.fatal]
    rw [reporter_begin]
    split <;> exact h.fatal

/-- Between its units a session is settled. -/
theorem settled_after (rounds : Nat) (color traced : Bool) (units : List String) :
    (after rounds units (fresh color traced)).Settled units := by
  induction units using List.reverseRecOn with
  | nil => exact settled_fresh color traced
  | append_singleton units unit ih =>
    rw [after_concat]
    exact ih.step rounds unit

/-- A settled session knows the lines of a unit that it begins, under
their own numbers, and no other lines. -/
theorem Settled.lines_begin (h : s.Settled units) (unit : String) (n : Int) :
    (begin unit s).reporter.lines[n]? =
      if lineBehind units ≤ n then (Text.lines unit.toList)[(n - lineBehind units).toNat]?
      else none := by
  rw [begin, Reporter.getElem?_lines_register, h.lines, h.nextLine]
  simp

theorem Settled.mem_lines_begin (h : s.Settled units) (unit : String) (n : Int) :
    n ∈ (begin unit s).reporter.lines ↔ n ∈ ownLines units unit := by
  rw [Std.TreeMap.mem_iff_isSome_getElem?, h.lines_begin, ownLines, lineBehind_concat,
    Set.mem_Ico]
  split
  · rw [isSome_getElem?, Text.length_lines]
    omega
  · simp
    omega

/-- What a unit does that is handled behind others on a command line. It
is numbered behind them, so that its lines are its own, and they are the
ones known while it runs. Afterwards the session is settled again. A
unit that is no program leaves the machine alone, with what it has
printed and the globals. If the unit ends well then nothing is written;
otherwise one message is, and the line of the error is one of the
unit's own, unless a loop is cut off. -/
theorem history (rounds : Nat) (color traced : Bool) (earlier : List String) (unit : String) :
    let s := after rounds earlier (fresh color traced)
    let t := after rounds (earlier ++ [unit]) (fresh color traced)
    s.nextLine = lineBehind earlier ∧
      (∀ n, n ∈ (begin unit s).reporter.lines ↔ n ∈ ownLines earlier unit) ∧
      (∀ between other,
        Disjoint (ownLines earlier unit) (ownLines (earlier ++ unit :: between) other)) ∧
      t.Settled (earlier ++ [unit]) ∧
      ((∃ ss, Parses unit s.nextLine ss) ∨ t.machine = s.machine) ∧
      match ((run rounds unit).run.run s).1 with
      | .ok _ => t.reporter.written = s.reporter.written
      | .error failure =>
        t.reporter.written =
            s.reporter.written ++ (begin unit s).reporter.render failure.error ++ "\n" ∧
          (failure = .execution .outOfRounds ∨
            ∃ n ∈ ownLines earlier unit, failure.error.line = some n) := by
  intro s t
  have hs : s.Settled earlier := settled_after rounds color traced earlier
  have ht : t = ((runReported rounds unit).run s).2 := after_concat rounds earlier unit _
  have hended := run_ended rounds unit s
  have hreporter := reporter_runReported rounds unit hs.fatal
  refine ⟨hs.nextLine, hs.mem_lines_begin unit, disjoint_ownLines earlier unit, ?_, ?_, ?_⟩
  · exact ht ▸ hs.step rounds unit
  · by_cases hparses : ∃ ss, Parses unit s.nextLine ss
    · exact .inl hparses
    · -- the machine is not come to, and the report leaves it alone
      refine .inr ?_
      rw [ht, run_runReported_eq]
      exact hended.machine_of_not_parses (not_exists.mp hparses)
  · rw [ht, hreporter]
    split
    · rw [reporter_begin]
      rfl
    · next failure hfailure => exact ⟨rfl, hended.error_line hs.nextLine hfailure⟩

end Session

end LoxLang
