import LoxLang.Proofs.Reporting.Marks
import LoxLang.Proofs.Session.Units

/-!
# `LoxLang.Proofs.Session.Effects`: what a unit does to its session

Whatever a unit is and however it ends, the next unit is numbered
behind it. Its lines are known to the reporter as long as it has not
ended well, and the machine is left alone unless the unit is parsed.

* `Session.Ended`: the four ways in which a unit ends, with the session
  behind it;
* `Session.run_ended`: every run of a unit is one of them.
-/

set_option autoImplicit false

namespace LoxLang

/-- A text is a program, which denotes the given statements when its
first line has the given number. -/
def Parses (source : String) (line : Int) (ss : List Stmt) : Prop :=
  ∃ tokens, scan source line = .ok tokens ∧ program tokens = .ok ss

/-- The statements of a text, if it is a program. -/
def statements? (source : String) (line : Int) : Option (List Stmt) :=
  match scan source line with
  | .error _ => none
  | .ok tokens =>
    match program tokens with
    | .error _ => none
    | .ok ss => some ss

theorem parses_iff {source : String} {line : Int} {ss : List Stmt} :
    Parses source line ss ↔ statements? source line = some ss := by
  rw [statements?]
  constructor
  · rintro ⟨tokens, hscan, hprogram⟩
    simp [hscan, hprogram]
  · intro h
    split at h
    · cases h
    · next hscan =>
      split at h
      · cases h
      · next hprogram => exact ⟨_, hscan, hprogram.trans (congrArg Except.ok (Option.some.inj h))⟩

instance (source : String) (line : Int) : Decidable (∃ ss, Parses source line ss) :=
  decidable_of_iff (statements? source line).isSome <| by
    simp only [parses_iff, Option.isSome_iff_exists]

namespace Session

variable {rounds : Nat} {source : String} {s : Session}

/-! ### Command lines -/

/-- A session on the units of a command line. Its machine may be asked to
note the scopes that are entered and left. -/
def fresh (color traced : Bool) : Session :=
  { path := commandLine
    reporter := { fatal := false, color }
    machine := { traced } }

/-! ### Ends of units -/

/-- To begin a unit makes its lines known, and the reporter names the path
of the session from then on. -/
theorem reporter_begin (source : String) (s : Session) :
    (begin source s).reporter =
      { s.reporter with path := some s.path, lines := (begin source s).reporter.lines } :=
  Reporter.addLines_eq s.nextLine _ { s.reporter with path := some s.path }

/-- The session in which the statements of a unit have been executed. -/
def executed (rounds : Nat) (source : String) (tokens : List Token) (ss : List Stmt)
    (s : Session) : Session :=
  ((execute rounds ss).run.run (note (.parsed s.nextLine ss.length)
    (note (.scanned s.nextLine tokens.length) (begin source s)))).2

/-- The ways in which a unit ends, with the session that it leaves. -/
inductive Ended (rounds : Nat) (source : String) (s : Session) :
    Except Failure Unit × Session → Prop where
  | lexical {stuck : Scanner.Stuck} (hscan : scan source s.nextLine = .error stuck) :
      Ended rounds source s (.error (.lexical stuck.fault), begin source s)
  | grammar {tokens : List Token} {m : Misplaced}
      (hscan : scan source s.nextLine = .ok tokens) (hprogram : program tokens = .error m) :
      Ended rounds source s
        (.error (.grammar m), note (.scanned s.nextLine tokens.length) (begin source s))
  | execution {tokens : List Token} {ss : List Stmt} {fault : Fault}
      (hscan : scan source s.nextLine = .ok tokens) (hprogram : program tokens = .ok ss)
      (hexec : ((execAll rounds ss).run.run s.machine).1 = .error fault) :
      Ended rounds source s
        (.error (.execution fault), executed rounds source tokens ss s)
  | ok {tokens : List Token} {ss : List Stmt}
      (hscan : scan source s.nextLine = .ok tokens) (hprogram : program tokens = .ok ss)
      (hexec : ((execAll rounds ss).run.run s.machine).1 = .ok ()) :
      Ended rounds source s
        (.ok (), { note (.ran s.nextLine ss.length) (executed rounds source tokens ss s) with
          reporter := (begin source s).reporter.clear })

theorem run_ended (rounds : Nat) (source : String) (s : Session) :
    Ended rounds source s ((run rounds source).run.run s) := by
  rw [run_eq]
  cases hscan : scan source s.nextLine with
  | error stuck => exact .lexical hscan
  | ok tokens =>
    cases hprogram : program tokens with
    | error m =>
      simp only [hprogram]
      exact .grammar hscan hprogram
    | ok ss =>
      have hexecute : (execute rounds ss).run.run (note (.parsed s.nextLine ss.length)
            (note (.scanned s.nextLine tokens.length) (begin source s))) =
          (((execAll rounds ss).run.run s.machine).1.mapError .execution,
            executed rounds source tokens ss s) := rfl
      cases hexec : ((execAll rounds ss).run.run s.machine).1 with
      | error fault =>
        simp only [hprogram, hexecute, hexec]
        exact .execution hscan hprogram hexec
      | ok =>
        simp only [hprogram, hexecute, hexec]
        exact .ok hscan hprogram hexec

/-! ### Part by part -/

namespace Ended

variable {r : Except Failure Unit × Session}

/-- The next unit starts behind the last line of this one. -/
theorem nextLine (h : Ended rounds source s r) :
    r.2.nextLine = s.nextLine + source.toList.count '\n' + 1 := by
  cases h <;> rfl

theorem path (h : Ended rounds source s r) : r.2.path = s.path := by
  cases h <;> rfl

/-- The lines of a unit are known until it has ended well. -/
theorem reporter (h : Ended rounds source s r) :
    r.2.reporter = match r.1 with
      | .ok _ => (begin source s).reporter.clear
      | .error _ => (begin source s).reporter := by
  cases h <;> rfl

theorem reporter_of_error (h : Ended rounds source s r) {failure : Failure}
    (hr : r.1 = .error failure) : r.2.reporter = (begin source s).reporter := by
  rw [h.reporter, hr]

theorem reporter_of_ok (h : Ended rounds source s r) {a : Unit} (hr : r.1 = .ok a) :
    r.2.reporter = (begin source s).reporter.clear := by
  rw [h.reporter, hr]

/-- A unit that is no program leaves the machine alone. -/
theorem machine_of_not_parses (h : Ended rounds source s r)
    (hparses : ∀ ss, ¬ Parses source s.nextLine ss) : r.2.machine = s.machine := by
  cases h with
  | lexical | grammar => rfl
  | execution hscan hprogram | ok hscan hprogram => exact absurd ⟨_, hscan, hprogram⟩ (hparses _)

/-- A unit that is a program ends as its statements do. -/
theorem of_parses (h : Ended rounds source s r) {ss : List Stmt}
    (hparses : Parses source s.nextLine ss) :
    r.1 = ((execAll rounds ss).run.run s.machine).1.mapError .execution ∧
      r.2.machine = { ((execAll rounds ss).run.run s.machine).2 with events := [] } := by
  obtain ⟨tokens, hscan, hprogram⟩ := hparses
  cases h with
  | lexical hscan' => cases hscan.symm.trans hscan'
  | grammar hscan' hprogram' =>
    cases hscan.symm.trans hscan'
    cases hprogram.symm.trans hprogram'
  | execution hscan' hprogram' hexec | ok hscan' hprogram' hexec =>
    cases hscan.symm.trans hscan'
    cases hprogram.symm.trans hprogram'
    exact ⟨by rw [hexec]; rfl, rfl⟩

/-- A unit with a token in the wrong place stops there. -/
theorem of_misplaced (h : Ended rounds source s r) {tokens : List Token} {m : Misplaced}
    (hscan : scan source s.nextLine = .ok tokens) (hprogram : program tokens = .error m) :
    r.1 = .error (.grammar m) ∧ r.2.machine = s.machine := by
  cases h with
  | lexical hscan' => cases hscan.symm.trans hscan'
  | grammar hscan' hprogram' =>
    cases hscan.symm.trans hscan'
    cases hprogram.symm.trans hprogram'
    exact ⟨rfl, rfl⟩
  | execution hscan' hprogram' | ok hscan' hprogram' =>
    cases hscan.symm.trans hscan'
    cases hprogram.symm.trans hprogram'

end Ended

end Session

end LoxLang
