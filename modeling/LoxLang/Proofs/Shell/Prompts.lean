import LoxLang.Proofs.Shell.Entries

/-!
# `LoxLang.Proofs.Shell.Prompts`: what a shell waits for

A shell either waits for any line, or for a line that goes on with an
entry. In the second case it shows the second prompt, the text of the
entry ends in a newline, and without it the text still lacks something
(`Shell.Waits`). A line takes the shell from one such state to another,
whatever the line is and however a unit ends that it completes.

* `Shell.Waits.enter`: the step of a line;
* `Shell.waits_after`: the shell behind any lines, and what the next
  line does to it.
-/

set_option autoImplicit false

namespace LoxLang.Shell

variable {rounds : Nat} {line : String} {sh : Shell}

/-! ### Waiting -/

/-- The prompt shows whether an entry has been started. One that has been
ends in a newline, and lacks something without it. -/
structure Waits (sh : Shell) : Prop where
  prompt : sh.prompt = if sh.entry = "" then firstPrompt else secondPrompt
  lacks : sh.entry ≠ "" → ∃ text, sh.entry = text ++ "\n" ∧ Session.isIncomplete text = true

theorem Waits.prompt_eq_iff (h : sh.Waits) : sh.prompt = ". " ↔ sh.entry ≠ "" := by
  rw [h.prompt]
  split <;> simp [*, firstPrompt, secondPrompt]

/-- A shell without an entry that shows the first prompt waits for any
line. -/
theorem waits_of_empty (hentry : sh.entry = "") (hprompt : sh.prompt = firstPrompt) :
    sh.Waits :=
  ⟨by rw [hprompt, if_pos hentry], fun hne => absurd hentry hne⟩

/-- A line that completes a unit hands it to the session, and the entry
is over however the unit ends. -/
theorem enter_of_unit {unit : String} (h : sh.unit? line = some unit) :
    ((enter rounds line).run sh).2 =
      { session := ((Session.runReported rounds unit).run sh.session).2 } := by
  rw [unit?] at h
  rw [run_enter]
  split at h
  · next source hcommand =>
    rw [run_addLine]
    split at h
    · cases h
    · next hlacks =>
      cases h
      rw [if_neg hlacks]
  · cases h

/-- Any other line goes on with the entry, which then still lacks
something, or changes nothing. -/
theorem enter_of_no_unit (h : sh.unit? line = none) :
    (∃ source, Session.isIncomplete (sh.entry ++ source) = true ∧
      ((enter rounds line).run sh).2 =
        { sh with entry := sh.entry ++ source ++ "\n", prompt := secondPrompt }) ∨
    ((enter rounds line).run sh).2 = sh := by
  rw [unit?] at h
  rw [run_enter]
  split at h
  · next source hcommand =>
    rw [run_addLine]
    split at h
    · next hlacks => exact .inl ⟨source, hlacks, by rw [if_pos hlacks]⟩
    · cases h
  · exact .inr rfl

/-- The step of a line. -/
theorem Waits.enter (h : sh.Waits) (rounds : Nat) (line : String) :
    ((Shell.enter rounds line).run sh).2.Waits := by
  cases hunit : sh.unit? line with
  | some unit =>
    rw [enter_of_unit hunit]
    exact waits_of_empty rfl rfl
  | none =>
    rcases enter_of_no_unit hunit with ⟨source, hlacks, heq⟩ | heq
    · rw [heq]
      exact ⟨(if_neg (by simp)).symm, fun _ => ⟨sh.entry ++ source, rfl, hlacks⟩⟩
    · rw [heq]
      exact h

theorem Waits.after (h : sh.Waits) (rounds : Nat) (lines : List String) :
    (Shell.after rounds lines sh).Waits := by
  induction lines generalizing sh with
  | nil => exact h
  | cons line lines ih => exact ih (h.enter rounds line)

/-! ### Stopping -/

theorem ofLine_eq_endOfInput_iff (hasEntry : Bool) (line : String) :
    Command.ofLine hasEntry line = .endOfInput ↔ line = "EOF" := by
  simp only [Command.ofLine]
  split
  · next heof => simp [heof]
  · next heof =>
    simp only [heof, iff_false]
    split_ifs <;> exact not_false

theorem ofLine_eq_exit_iff (hasEntry : Bool) (line : String) :
    Command.ofLine hasEntry line = .exit ↔
      line ≠ "EOF" ∧ hasEntry = false ∧ String.ofList (Text.strip line.toList) = "exit" := by
  simp only [Command.ofLine]
  split
  · next heof => simp [heof]
  · next heof =>
    split
    · next hexit => simp [heof, hexit]
    · next hexit =>
      rw [and_comm] at hexit
      simp only [hexit, and_false, iff_false]
      split_ifs <;> exact not_false

/-- A line stops the shell if it says that the input has ended, or asks
for an exit where no entry has been started. -/
theorem stops_enter (rounds : Nat) (line : String) (sh : Shell) :
    ((enter rounds line).run sh).1.stops = true ↔
      line = "EOF" ∨ sh.entry = "" ∧ String.ofList (Text.strip line.toList) = "exit" := by
  have hstops : ((enter rounds line).run sh).1.stops = true ↔
      Command.ofLine sh.hasEntry line = .endOfInput ∨ Command.ofLine sh.hasEntry line = .exit := by
    cases h : Command.ofLine sh.hasEntry line <;> simp [enter, h] <;> rfl
  have hentry : sh.hasEntry = false ↔ sh.entry = "" := by simp [hasEntry]
  rw [hstops, ofLine_eq_endOfInput_iff, ofLine_eq_exit_iff, hentry]
  by_cases heof : line = "EOF" <;> simp [heof]

/-! ### Conversations -/

/-- Behind any lines a shell shows the second prompt exactly if an entry
has been started, and that lacks something still. The next line then
either completes a unit, which is run, and whatever becomes of it the
entry is over; or it leaves the session alone. It stops the shell only
if it is the end of the input, or asks for an exit outside of an
entry. -/
theorem waits_after (rounds : Nat) (lines : List String) (session : Session) :
    let sh := after rounds lines { session }
    (sh.prompt = ". " ↔ sh.entry ≠ "") ∧ (sh.entry = "" → sh.prompt = "> ") ∧
      (sh.entry ≠ "" → ∃ text, sh.entry = text ++ "\n" ∧ Session.isIncomplete text = true) ∧
      ∀ line,
        let next := ((enter rounds line).run sh).2
        (∀ unit, sh.unit? line = some unit →
          next.session = ((Session.runReported rounds unit).run sh.session).2 ∧
            next.entry = "" ∧ next.prompt = "> ") ∧
        (sh.unit? line = none → next.session = sh.session) ∧
        (((enter rounds line).run sh).1.stops = true ↔
          line = "EOF" ∨ sh.entry = "" ∧ String.ofList (Text.strip line.toList) = "exit") := by
  intro sh
  have hwaits : sh.Waits := Waits.after (waits_of_empty rfl rfl) rounds lines
  refine ⟨hwaits.prompt_eq_iff, fun hempty => hwaits.prompt.trans (if_pos hempty), hwaits.lacks,
    fun line => ?_⟩
  refine ⟨fun unit hunit => ?_, fun hunit => ?_, stops_enter rounds line sh⟩
  · rw [enter_of_unit hunit]
    exact ⟨rfl, rfl, rfl⟩
  · rw [session_enter, hunit]
    rfl

/-- A block goes over two lines, and it stops at a fault when it is run:
the first line is an entry to go on with, and behind the second one there
is none, though the fault has been reported. -/
theorem waits_after_fault :
    let sh := after 1 ["\x7b print nil;"] { session := Session.fresh false false }
    let next := ((enter 1 "\x7d").run sh).2
    sh.prompt = ". " ∧ (∃ text, sh.entry = text ++ "\n" ∧ Session.isIncomplete text = true) ∧
      sh.unit? "\x7d" = some "\x7b print nil;\n\x7d" ∧
      next.session.reporter.written ≠ "" ∧ next.entry = "" ∧ next.prompt = "> " := by
  intro sh next
  have hentry : sh.entry ≠ "" := by decide +kernel
  have hunit : sh.unit? "\x7d" = some "\x7b print nil;\n\x7d" := by decide +kernel
  have hwritten : next.session.reporter.written ≠ "" := by decide +kernel
  obtain ⟨hprompt, -, hpending, hline⟩ :=
    waits_after 1 ["\x7b print nil;"] (Session.fresh false false)
  obtain ⟨-, hover⟩ := (hline "\x7d").1 _ hunit
  exact ⟨hprompt.mpr hentry, hpending hentry, hunit, hwritten, hover⟩

end LoxLang.Shell
