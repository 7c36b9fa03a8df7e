import LoxLang.Proofs.Session.Histories
import LoxLang.Shell
import Mathlib.Data.List.Infix

/-!
# `LoxLang.Proofs.Shell.Entries`: lines and the units they make

A shell makes units of the lines that it is given. An entry is started
by a line that asks for something else than nothing, help or an exit; it
takes every line that follows, whatever that would ask for otherwise;
and it ends as soon as its text lacks nothing (`Shell.IsEntry`). The
lines of a conversation are split into entries and the lines between
them in this way (`Shell.Splits`), and the units that are run are the
texts of the entries. The text of an entry has the lines as they are,
save that a line of blanks counts as an empty one (`Shell.kept`).

* `Shell.units`, `Shell.session_after`: the units that a conversation
  hands to the session;
* `Shell.splits_units`: they are the texts of its entries;
* `Shell.not_splits_unchanged`: they are not always so with all lines as
  they are.
-/

set_option autoImplicit false

namespace LoxLang.Shell

/-! ### Entries -/

/-- A line that starts no entry: it has blanks only, or asks for help or
an exit. -/
def IsIdle (line : String) : Prop :=
  String.ofList (Text.strip line.toList) ∈ ["", "exit", "help"]

instance (line : String) : Decidable (IsIdle line) :=
  inferInstanceAs (Decidable (_ ∈ _))

/-- A line as it is taken up into an entry: one of blanks counts as
empty. -/
def kept (line : String) : String :=
  if String.ofList (Text.strip line.toList) = "" then "" else line

/-- The text of some lines, each of which is kept in a way. -/
def textOf (keep : String → String) (lines : List String) : String :=
  "\n".intercalate (lines.map keep)

/-- Lines of an entry that still lacks something. -/
structure IsUnfinished (keep : String → String) (lines : List String) : Prop where
  starts : ∀ first ∈ lines.head?, ¬ IsIdle first
  lacks : ∀ part, part <+: lines → part ≠ [] → Session.isIncomplete (textOf keep part) = true

/-- The lines of an entry: the last of them is the first behind which it
lacks nothing. -/
structure IsEntry (keep : String → String) (lines : List String) : Prop where
  starts : ∃ first, lines.head? = some first ∧ ¬ IsIdle first
  lacks : ∀ part, part <+: lines → part ≠ [] →
    (Session.isIncomplete (textOf keep part) = true ↔ part ≠ lines)

/-- Lines are split into entries, of which the texts are given, lines
between them, and the lines of an entry that is not finished yet. -/
inductive Splits (keep : String → String) :
    List String → List String → List String → Prop where
  | unfinished {pending : List String} (h : IsUnfinished keep pending) :
      Splits keep pending [] pending
  | idle {line : String} {lines units pending : List String} (hline : IsIdle line)
      (h : Splits keep lines units pending) : Splits keep (line :: lines) units pending
  | entry {entry lines units pending : List String} (hentry : IsEntry keep entry)
      (h : Splits keep lines units pending) :
      Splits keep (entry ++ lines) (textOf keep entry :: units) pending

/-! ### Conversations -/

/-- The unit that a line completes, if it does. -/
def unit? (line : String) (sh : Shell) : Option String :=
  match Command.ofLine sh.hasEntry line with
  | .source line =>
    if Session.isIncomplete (sh.entry ++ line) then none else some (sh.entry ++ line)
  | _ => none

/-- The shell behind some lines. -/
def after (rounds : Nat) : List String → Shell → Shell
  | [], sh => sh
  | line :: lines, sh => after rounds lines ((enter rounds line).run sh).2

/-- The units that some lines complete, one after another. -/
def units (rounds : Nat) : List String → Shell → List String
  | [], _ => []
  | line :: lines, sh =>
    (sh.unit? line).toList ++ units rounds lines ((enter rounds line).run sh).2

variable {rounds : Nat} {line : String} {sh : Shell}

theorem run_addLine (rounds : Nat) (line : String) (sh : Shell) :
    ((addLine rounds line).run sh).2 =
      if Session.isIncomplete (sh.entry ++ line) then
        { sh with entry := sh.entry ++ line ++ "\n", prompt := secondPrompt }
      else { session := ((Session.runReported rounds (sh.entry ++ line)).run sh.session).2 } := by
  cases h : Session.isIncomplete (sh.entry ++ line) <;> simp [addLine, h] <;> rfl

theorem run_enter (rounds : Nat) (line : String) (sh : Shell) :
    ((enter rounds line).run sh).2 =
      match Command.ofLine sh.hasEntry line with
      | .source line => ((addLine rounds line).run sh).2
      | _ => sh := by
  cases h : Command.ofLine sh.hasEntry line <;> simp [enter, h] <;> rfl

/-- A line that is no source changes nothing. -/
theorem enter_of_not_source (h : ∀ source, Command.ofLine sh.hasEntry line ≠ .source source) :
    sh.unit? line = none ∧ ((enter rounds line).run sh).2 = sh := by
  rw [unit?, run_enter]
  cases hcommand : Command.ofLine sh.hasEntry line with
  | source source => exact absurd hcommand (h source)
  | _ => exact ⟨rfl, rfl⟩

/-- A line hands the unit that it completes to the session, and else it
leaves the session alone. -/
theorem session_enter (rounds : Nat) (line : String) (sh : Shell) :
    ((enter rounds line).run sh).2.session =
      Session.after rounds (sh.unit? line).toList sh.session := by
  rw [run_enter, unit?]
  split
  · rw [run_addLine]
    split <;> rfl
  · rfl

theorem session_after (rounds : Nat) (lines : List String) (sh : Shell) :
    (after rounds lines sh).session =
      Session.after rounds (units rounds lines sh) sh.session := by
  induction lines generalizing sh with
  | nil => rfl
  | cons line lines ih =>
    rw [after, ih, session_enter, units, Session.after, Session.after, Session.after,
      List.foldl_append]

/-! ### What a line asks for -/

/-- Within an entry every line goes on with it, but for the end of
input. -/
theorem ofLine_of_entry (h : line ≠ "EOF") : Command.ofLine true line = .source (kept line) := by
  simp only [Command.ofLine, if_neg h, kept, Bool.true_eq_false, and_false, if_false, if_true]
  split <;> rfl

/-- Where no entry has been started, an idle line is no source. -/
theorem ofLine_of_idle (hidle : IsIdle line) (source : String) :
    Command.ofLine false line ≠ .source source := by
  simp only [IsIdle, List.mem_cons, List.not_mem_nil, or_false] at hidle
  by_cases h : line = "EOF"
  · simp [Command.ofLine, h]
  · rcases hidle with hword | hword | hword <;> simp [Command.ofLine, h, hword]

/-- Any other line starts one. -/
theorem ofLine_of_not_idle (h : line ≠ "EOF") (hidle : ¬ IsIdle line) :
    Command.ofLine false line = .source (kept line) := by
  simp only [IsIdle, List.mem_cons, List.not_mem_nil, or_false, not_or] at hidle
  simp [Command.ofLine, h, hidle, kept]

/-! ### Texts of entries -/

/-- The text that a shell has of the lines of an entry: theirs, and a
newline for the next line. -/
def pendingText (lines : List String) : String :=
  if lines = [] then "" else textOf kept lines ++ "\n"

/-- The next line goes behind the text. -/
theorem textOf_concat (lines : List String) (line : String) :
    textOf kept (lines ++ [line]) = pendingText lines ++ kept line := by
  rw [textOf, List.map_append, pendingText]
  split
  · next h => simp [h]
  · next h =>
    rw [String.intercalate_append_of_ne_nil (by simpa using h) (by simp)]
    simp [textOf]

theorem pendingText_concat (lines : List String) (line : String) :
    pendingText (lines ++ [line]) = pendingText lines ++ kept line ++ "\n" := by
  rw [pendingText, if_neg (by simp), textOf_concat]

theorem hasEntry_eq (session : Session) (lines : List String) (prompt : String) :
    hasEntry { session, entry := pendingText lines, prompt } = decide (lines ≠ []) := by
  rw [hasEntry, pendingText]
  split
  · next h => simp [h]
  · next h => simp [h]

/-! ### Splitting a conversation -/

theorem isUnfinished_nil (keep : String → String) : IsUnfinished keep [] where
  starts _ h := nomatch h
  lacks _ h hne := absurd (List.prefix_nil.mp h) hne

section Next

variable {keep : String → String} {pending : List String}

/-- The first line of an entry is the first one that there is. -/
theorem IsUnfinished.starts_concat (h : IsUnfinished keep pending)
    (hline : pending = [] → ¬ IsIdle line) :
    ∃ first, (pending ++ [line]).head? = some first ∧ ¬ IsIdle first := by
  cases pending with
  | nil => exact ⟨line, rfl, hline rfl⟩
  | cons first _ => exact ⟨first, rfl, h.starts first rfl⟩

/-- An entry that still lacks something with the next line. -/
theorem IsUnfinished.concat (h : IsUnfinished keep pending)
    (hline : pending = [] → ¬ IsIdle line)
    (hlacks : Session.isIncomplete (textOf keep (pending ++ [line])) = true) :
    IsUnfinished keep (pending ++ [line]) where
  starts := by
    obtain ⟨first, hhead, hfirst⟩ := h.starts_concat hline
    rw [hhead]
    rintro _ ⟨⟩
    exact hfirst
  lacks part hpart hne := by
    rcases List.prefix_concat_iff.mp hpart with rfl | hshort
    · exact hlacks
    · exact h.lacks part hshort hne

/-- An entry that lacks nothing with the next line. -/
theorem IsUnfinished.entry (h : IsUnfinished keep pending)
    (hline : pending = [] → ¬ IsIdle line)
    (hlacks : Session.isIncomplete (textOf keep (pending ++ [line])) = false) :
    IsEntry keep (pending ++ [line]) where
  starts := h.starts_concat hline
  lacks part hpart hne := by
    rcases List.prefix_concat_iff.mp hpart with rfl | hshort
    · simp [hlacks]
    · have hlt : part.length < (pending ++ [line]).length := by
        have hle := hshort.length_le
        rw [List.length_append, List.length_singleton]
        omega
      have hother : part ≠ pending ++ [line] := fun heq => hlt.ne (congrArg List.length heq)
      simp [h.lacks part hshort hne, hother]

end Next

/-- What is left of a conversation is split, with the lines of the entry
that has been started in front of it. -/
theorem splits_from (rounds : Nat) (lines : List String) (session : Session) (prompt : String)
    {pending : List String} (h : IsUnfinished kept pending) :
    ∃ pending', Splits kept (pending ++ lines.filter (· ≠ "EOF"))
        (units rounds lines { session, entry := pendingText pending, prompt }) pending' ∧
      (after rounds lines { session, entry := pendingText pending, prompt }).entry =
        pendingText pending' := by
  induction lines generalizing session prompt pending with
  | nil => exact ⟨pending, by simpa using .unfinished h, rfl⟩
  | cons line lines ih =>
    rw [units, after]
    by_cases heof : line = "EOF"
    · obtain ⟨hunit, henter⟩ := @enter_of_not_source rounds line
        { session, entry := pendingText pending, prompt }
        fun source => by simp [Command.ofLine, heof]
      rw [hunit, henter, List.filter_cons_of_neg (by simp [heof])]
      exact ih session prompt h
    rw [List.filter_cons_of_pos (by simpa using heof)]
    by_cases hidle : pending = [] ∧ IsIdle line
    -- nothing has been started, and nothing is
    · obtain ⟨rfl, hidle⟩ := hidle
      obtain ⟨hunit, henter⟩ := @enter_of_not_source rounds line
        { session, entry := pendingText [], prompt } fun source => ofLine_of_idle hidle source
      obtain ⟨pending', hsplits, hentry⟩ := ih session prompt h
      rw [hunit, henter]
      exact ⟨pending', .idle hidle hsplits, hentry⟩
    -- the line goes on with the entry, or starts one
    · have hline : pending = [] → ¬ IsIdle line := fun hp hi => hidle ⟨hp, hi⟩
      have hsource : Command.ofLine (decide (pending ≠ [])) line = .source (kept line) := by
        by_cases hp : pending = []
        · simpa [hp] using ofLine_of_not_idle heof (hline hp)
        · simpa [hp] using ofLine_of_entry heof
      rw [unit?, run_enter, hasEntry_eq, hsource]
      simp only [run_addLine, ← textOf_concat]
      cases hlacks : Session.isIncomplete (textOf kept (pending ++ [line])) with
      | true =>
        obtain ⟨pending', hsplits, hentry⟩ :=
          ih session secondPrompt (h.concat hline hlacks)
        rw [List.append_assoc, List.singleton_append, pendingText_concat, ← textOf_concat]
          at hsplits
        rw [pendingText_concat, ← textOf_concat] at hentry
        exact ⟨pending', hsplits, hentry⟩
      | false =>
        have hentry' := h.entry hline hlacks
        obtain ⟨pending', hsplits, hentry⟩ := ih
          ((Session.runReported rounds (textOf kept (pending ++ [line]))).run session).2
          firstPrompt (isUnfinished_nil kept)
        refine ⟨pending', ?_, hentry⟩
        have hwhole := Splits.entry hentry' hsplits
        rw [List.nil_append, List.append_assoc, List.singleton_append] at hwhole
        exact hwhole

/-- In a conversation with a new shell, the units that are run are the
texts of its entries: the lines of each with newlines between them,
where a line of blanks counts as an empty one. Lines between entries do
nothing, and neither does the line that says that the input has ended.
What the shell keeps at last are the lines of an entry that still lacks
something. -/
theorem splits_units (rounds : Nat) (lines : List String) (session : Session) :
    let sh : Shell := { session }
    (after rounds lines sh).session =
        Session.after rounds (units rounds lines sh) session ∧
      ∃ pending, Splits kept (lines.filter (· ≠ "EOF")) (units rounds lines sh) pending ∧
        (after rounds lines sh).entry = pendingText pending :=
  ⟨session_after rounds lines _, splits_from rounds lines session _ (isUnfinished_nil kept)⟩

/-! ### Lines of blanks -/

/-- The first unit of a conversation that begins with a source line is
the text of its first lines. -/
theorem Splits.exists_entry {keep : String → String} {unit : String}
    {lines units pending : List String} (h : Splits keep lines (unit :: units) pending)
    (hfirst : ∀ first ∈ lines.head?, ¬ IsIdle first) :
    ∃ entry ∈ lines.inits, textOf keep entry = unit := by
  cases h with
  | idle hline => exact absurd hline (hfirst _ rfl)
  | @entry entry rest _ _ hentry => exact ⟨entry, by simp, rfl⟩

/-- A string in which there is a line of two blanks. -/
def blankInString : List String := ["print \"a", "  ", "b\";"]

/-- The lines of an entry are not always taken up as they are: of a line
of blanks inside a string nothing is left. -/
theorem not_splits_unchanged :
    let sh : Shell := { session := Session.fresh false false }
    units 1 blankInString sh = ["print \"a\n\nb\";"] ∧
      ∀ pending, ¬ Splits id (blankInString.filter (· ≠ "EOF")) (units 1 blankInString sh)
        pending := by
  intro sh
  have hunits : units 1 blankInString sh = ["print \"a\n\nb\";"] := by decide +kernel
  refine ⟨hunits, fun pending h => ?_⟩
  rw [hunits] at h
  have hfirst : ∀ first ∈ (blankInString.filter (· ≠ "EOF")).head?, ¬ IsIdle first := by
    decide +kernel
  have hnone : ∀ entry ∈ (blankInString.filter (· ≠ "EOF")).inits,
      textOf id entry ≠ "print \"a\n\nb\";" := by decide +kernel
  obtain ⟨entry, hentry, htext⟩ := h.exists_entry hfirst
  exact hnone entry hentry htext

end LoxLang.Shell
