import LoxLang.Proofs.Execution.Proper
import LoxLang.Proofs.Grammar.Descent
import LoxLang.Proofs.Grammar.Failures
import LoxLang.Proofs.Grammar.Programs
import LoxLang.Proofs.Lexical.Tokenisation
import LoxLang.Proofs.Session.Messages

/-!
# `LoxLang.Proofs.Session.Units`: how a unit ends

A unit is scanned, parsed and executed. Each of these stops for faults
of its own, and those that only a tree or a token list from elsewhere
could bring about do not occur: what is scanned ends with an end, so the
parser stays within its tokens (`Descent.StaysWithin`), and what is
parsed is proper, so the interpreter knows all of it.

* `Session.run_eq`: a unit stage by stage;
* `Session.run_ends`: how a unit ends, whatever the session.
-/

set_option autoImplicit false

namespace LoxLang

/-! ### The stages of a unit -/

namespace Session

/-- A unit stage by stage, each of which may stop it. -/
theorem run_eq (rounds : Nat) (source : String) (s : Session) :
    (run rounds source).run.run s =
      match scan source s.nextLine with
      | .error stuck => (.error (.lexical stuck.fault), begin source s)
      | .ok tokens =>
        match program tokens with
        | .error m =>
          (.error (.grammar m), note (.scanned s.nextLine tokens.length) (begin source s))
        | .ok ss =>
          match (execute rounds ss).run.run
            (note (.parsed s.nextLine ss.length)
              (note (.scanned s.nextLine tokens.length) (begin source s))) with
          | (.error failure, t) => (.error failure, t)
          | (.ok _, t) =>
            (.ok (), { note (.ran s.nextLine ss.length) t with reporter := t.reporter.clear }) := by
  rw [run]
  simp only [run_bind, run_get, run_modify, run_liftExcept_mapError]
  cases scan source s.nextLine with
  | error stuck => rfl
  | ok tokens =>
    simp only
    cases program tokens with
    | error m => rfl
    | ok ss =>
      simp only
      split
      · next h =>
        rw [h]
        rfl
      · next h => rw [h]

/-- A unit that is parsed ends as its statements do on the machine. -/
theorem fst_run_of_program {rounds : Nat} {source : String} {s : Session}
    {tokens : List Token} {ss : List Stmt} (hscan : scan source s.nextLine = .ok tokens)
    (hprogram : program tokens = .ok ss) :
    ((run rounds source).run.run s).1 =
      ((execAll rounds ss).run.run s.machine).1.mapError Failure.execution := by
  have hexecute (t : Session) : ((execute rounds ss).run.run t).1 =
      ((execAll rounds ss).run.run t.machine).1.mapError Failure.execution := rfl
  -- the notes made before do not touch the machine
  have hmachine := hexecute (note (.parsed s.nextLine ss.length)
    (note (.scanned s.nextLine tokens.length) (begin source s)))
  rw [run_eq, hscan]
  simp only [hprogram]
  refine Eq.trans ?_ hmachine
  split <;> next h => rw [h]

end Session

/-! ### What stops a stage -/

/-- A text that is blocked has a lexical error. -/
theorem Blocked.lexical {line : Int} {before rest : List Char} {error : Error}
    (h : Blocked line before rest error) :
    error.internal = false ∧ ∃ unterminated, error.cause = .lexical unterminated := by
  cases h <;> exact ⟨rfl, _, rfl⟩

/-- What a program can have for a fault is about one of its tokens, save
that a loop may be cut off. -/
theorem Fault.Regular.execution {fault : Fault} (h : fault.Regular) :
    fault = .outOfRounds ∨
      fault.error.internal = false ∧ ∃ token, fault.error.cause = .execution (some token) := by
  cases fault with
  | outOfRounds => exact .inl rfl
  | notExpression | notStatement | unknownOperator => exact h.elim
  | _ => exact .inr ⟨rfl, _, rfl⟩

/-- The last token of a text is that of its end. -/
theorem endsWithEnd_of_scan {source : String} {line : Int} {tokens : List Token}
    (h : scan source line = .ok tokens) : EndsWithEnd tokens := by
  rcases scan_cases source line with ⟨lexemes, -, hok⟩ | ⟨_, _, _, _, -, -, -, herror⟩
  · rw [h] at hok
    cases hok
    exact ⟨Lexeme.endToken line source.toList, by simp, rfl⟩
  · rw [h] at herror
    cases herror

/-- The statements of a program are proper. -/
theorem allProper_of_program {tokens : List Token} {ss : List Stmt}
    (h : program tokens = .ok ss) : Stmt.AllProper ss :=
  (Stmt.readAll_eq_ok_iff.mp (program_eq_ok_iff.mp h)).proper

/-! ### Units -/

namespace Session

/-- How a failure stops a unit: a text that cannot be scanned, one of its
tokens in the wrong place, or a token at which it stops when it is
executed. -/
def Failure.IsOf (tokens : Except Scanner.Stuck (List Token)) : Failure → Prop
  | .lexical fault => ∃ unterminated, fault.error.cause = .lexical unterminated
  | .grammar m =>
    m.error.cause = .grammar m.found m.expected ∧ ∃ ts, tokens = .ok ts ∧ m.found ∈ ts
  | .execution fault => ∃ token, fault.error.cause = .execution (some token)

/-- Whatever was run in a session before, a unit that ends does so well
or with an error of the program itself: its text cannot be scanned, a
token of it is misplaced, or it stops at a token when it is executed.
Such an error is not internal, and its message can be filled in as it
is written out. The parser stays within the tokens of the unit, be they
a program or not. -/
theorem run_ends (rounds : Nat) (source : String) (s : Session) :
    let result := ((run rounds source).run.run s).1
    (result = .ok () ∨ result = .error (.execution .outOfRounds) ∨
      ∃ failure, result = .error failure ∧ failure.error.internal = false ∧
        failure.draft.error? = some failure.error ∧ failure.IsOf (scan source s.nextLine)) ∧
      ∀ tokens, scan source s.nextLine = .ok tokens → Descent.StaysWithin tokens := by
  intro result
  refine ⟨?_, fun tokens hscan => Descent.staysWithin (endsWithEnd_of_scan hscan)⟩
  rcases scan_cases source s.nextLine with
    ⟨lexemes, -, hscan⟩ | ⟨_, _, _, stuck, -, -, hblocked, hscan⟩
  -- the text is scanned, and what is scanned has an end
  · have heof := (endsWithEnd_of_scan hscan).exists_mem
    cases hprogram : program (lexemes ++ [Lexeme.endToken s.nextLine source.toList]) with
    | error m =>
      have hresult : result = .error (.grammar m) := by
        simp only [result, run_eq, hscan, hprogram]
      have hfound := found_mem_of_program heof hprogram
      exact .inr (.inr ⟨_, hresult, m.grammar.1, Failure.error?_draft _, m.grammar.2, _, hscan,
        hfound⟩)
    | ok ss =>
      have hresult := @fst_run_of_program rounds _ _ _ _ hscan hprogram
      -- what is parsed is proper, so nothing but a fault of the program stops it
      have hfails := execAll_fails rounds ss (allProper_of_program hprogram) s.machine
      cases hexec : ((execAll rounds ss).run.run s.machine).1 with
      | ok =>
        rw [hexec] at hresult
        exact .inl hresult
      | error fault =>
        rw [hexec] at hresult
        rcases (hfails fault hexec).execution with rfl | ⟨hinternal, htoken⟩
        · exact .inr (.inl hresult)
        · exact .inr (.inr ⟨_, hresult, hinternal, Failure.error?_draft _, htoken⟩)
  · have hresult : result = .error (.lexical stuck.fault) := by
      simp only [result, run_eq, hscan]
    exact .inr (.inr ⟨_, hresult, hblocked.lexical.1, Failure.error?_draft _, hblocked.lexical.2⟩)

end Session

end LoxLang
