import LoxLang.Proofs.Reporting.Marks

/-!
# `LoxLang.Proofs.Reporting.Diagnoses`: what a diagnosis shows

A diagnosis exists exactly if the line of the error is known and has the
first snippet of the error somewhere in it. It is then two lines of
text: the known line, and below it a sign for the occurrence of the
snippet that is meant. The column of an error, if it has one, is taken
to count from the start of the line.

* `Reporter.lines_diagnosisText`: the two lines of a diagnosis;
* `Reporter.Lined`: known lines have no newline of their own, whatever
  texts have been made known;
* `Reporter.diagnosisText?_shows`: all of this for a reporter.
-/

set_option autoImplicit false

namespace LoxLang

namespace Diagnosis

/-! ### The two lines -/

/-- The three parts of the line make up the whole of it. -/
theorem front_append_marked_append_behind {d : Diagnosis} {start : Nat} (hstart : d.start = start) :
    d.front ++ d.marked ++ d.behind = d.line := by
  have hstop : d.stop = ((start + d.length : Nat) : Int) := by rw [stop, hstart, Int.natCast_add]
  rw [front, marked, behind, hstop, hstart, Text.take_place, Text.drop_place]
  exact Text.take_append_slice_append_drop d.line (Nat.le_add_right start d.length)

end Diagnosis

namespace Reporter

variable {r : Reporter} {e : Error} {line : List Char}

/-- Without colour a diagnosis shows its line, and below that blanks up to
the marked part and the sign. -/
theorem toList_diagnosisText (hcolor : r.color = false) {d : Diagnosis} {start : Nat}
    (hstart : d.start = start) :
    (r.diagnosisText d).toList =
      "  ".toList ++ d.line ++ '\n' :: ("  ".toList ++ List.replicate start ' ' ++ d.marker) := by
  have hplain (style : Style) (text : String) : r.colored style text = text := by
    rw [colored, hcolor, if_neg Bool.false_ne_true]
  rw [diagnosisText, hplain, hplain, hstart, ← Diagnosis.front_append_marked_append_behind hstart]
  simp

/-- A diagnosis of a line is two lines. -/
theorem lines_diagnosisText (hcolor : r.color = false) {d : Diagnosis} {start : Nat}
    (hstart : d.start = start) (hline : '\n' ∉ d.line) :
    Text.lines (r.diagnosisText d).toList =
      ["  ".toList ++ d.line, "  ".toList ++ List.replicate start ' ' ++ d.marker] := by
  have hshown : '\n' ∉ "  ".toList ++ d.line := by simpa using hline
  have hbelow : '\n' ∉ "  ".toList ++ List.replicate start ' ' ++ d.marker := by
    simp [Diagnosis.marker]
  rw [toList_diagnosisText hcolor hstart, Text.lines_append_newline,
    Text.lines_eq_singleton hshown, Text.lines_eq_singleton hbelow]
  rfl

/-! ### Known lines -/

/-- The known lines have no newline of their own. -/
def Lined (r : Reporter) : Prop :=
  ∀ (number : Int) (line : List Char), r.lines[number]? = some line → '\n' ∉ line

/-- A new reporter knows no lines. -/
theorem Lined.of_empty (h : r.lines = ∅) : r.Lined := by
  intro number line hline
  simp [h] at hline

/-- The lines of any text can be made known. -/
theorem Lined.register (h : r.Lined) (path source : String) (first : Int) :
    (r.register path source first).Lined := by
  intro number line hline
  rcases known_cases hline with hnew | hold
  · exact Text.newline_not_mem_of_mem_lines hnew
  · exact h number line hold

/-- The line that an error is about is known. -/
def Knows (r : Reporter) (e : Error) (line : List Char) : Prop :=
  ∃ number, e.line = some number ∧ r.lines[number]? = some line

theorem Knows.diagnose?_eq (h : r.Knows e line) : r.diagnose? e = Diagnosis.find? e line := by
  obtain ⟨number, hline, hknown⟩ := h
  exact diagnose?_of_known hline hknown

theorem Knows.unique {line' : List Char} (h : r.Knows e line) (h' : r.Knows e line') :
    line = line' := by
  obtain ⟨number, hline, hknown⟩ := h
  obtain ⟨_, hline', hknown'⟩ := h'
  cases hline.symm.trans hline'
  exact Option.some.inj (hknown.symm.trans hknown')

theorem Knows.newline_notMem (h : r.Knows e line) (hlined : r.Lined) : '\n' ∉ line := by
  obtain ⟨number, -, hknown⟩ := h
  exact hlined number line hknown

theorem diagnose?_of_not_knows (h : ∀ line, ¬ r.Knows e line) : r.diagnose? e = none := by
  rw [diagnose?]
  cases hline : e.line with
  | none => rfl
  | some number =>
    cases hknown : r.lines[number]? with
    | none => simp [hknown]
    | some line => exact absurd ⟨number, hline, hknown⟩ (h line)

/-- There is no diagnosis of an error exactly if its line is not known,
it has no first snippet or an empty one, or the snippet does not occur in
the line. -/
theorem diagnosisText?_eq_none_iff :
    r.diagnosisText? e = none ↔
      (∀ line, ¬ r.Knows e line) ∨
        (e.snippets.head? = none ∨ e.snippets.head? = some "") ∨
        ∃ line, r.Knows e line ∧ ¬ e.snippet.toList <:+: line := by
  have hsnippet : e.snippet = "" ↔ e.snippets.head? = none ∨ e.snippets.head? = some "" := by
    rw [Error.snippet]
    cases e.snippets <;> simp
  rw [diagnosisText?, Option.map_eq_none_iff, ← hsnippet]
  by_cases hknown : ∃ line, r.Knows e line
  · -- the line is known, so it is the one to search
    obtain ⟨line, hline⟩ := hknown
    rw [hline.diagnose?_eq, Diagnosis.find?_eq_none_iff]
    constructor
    · rintro (hempty | hoccurs)
      · exact .inr (.inl hempty)
      · exact .inr (.inr ⟨line, hline, hoccurs⟩)
    · rintro (hnone | hempty | ⟨line', hline', hoccurs⟩)
      · exact absurd hline (hnone line)
      · exact .inl hempty
      · exact .inr (hline.unique hline' ▸ hoccurs)
  · have hnone := not_exists.mp hknown
    simp [diagnose?_of_not_knows hnone, hnone]

/-- A diagnosis is one of the known line, and points at the snippet in
it. -/
theorem exists_diagnose? (hcolumn : ∀ column, e.column = some column → 0 ≤ column)
    (h : r.diagnosisText? e ≠ none) :
    ∃ line, ∃ start : Nat, r.Knows e line ∧ e.PointsAt line start ∧
      r.diagnose? e = some { line, start, length := e.snippet.toList.length } := by
  rw [Ne, diagnosisText?, Option.map_eq_none_iff] at h
  have hknown : ∃ line, r.Knows e line := by
    by_contra hnone
    exact h (diagnose?_of_not_knows (not_exists.mp hnone))
  obtain ⟨line, hline⟩ := hknown
  rw [hline.diagnose?_eq, Diagnosis.find?_eq_none_iff, not_or, not_not] at h
  obtain ⟨start, hpoints, hfind⟩ := Diagnosis.exists_of_occurs hcolumn h.1 h.2
  exact ⟨line, start, hline, hpoints, hline.diagnose?_eq.trans hfind⟩

/-- A reporter has no diagnosis of an error exactly if the line of the
error is not known, its first snippet is missing or empty, or that does
not occur in the line. Otherwise, without colour, the diagnosis is two
lines of text: the known line, and below it, two blanks further in like
the line, a sign as long as the snippet. The sign is below the
occurrence of the snippet at the column of the error, if there is one,
or below the leftmost occurrence. -/
theorem diagnosisText?_shows (hlined : r.Lined)
    (hcolumn : ∀ column, e.column = some column → 0 ≤ column) :
    (r.diagnosisText? e = none ↔
      (∀ line, ¬ r.Knows e line) ∨
        (e.snippets.head? = none ∨ e.snippets.head? = some "") ∨
        ∃ line, r.Knows e line ∧ ¬ e.snippet.toList <:+: line) ∧
      (r.color = false → ∀ text, r.diagnosisText? e = some text →
        ∃ line start, r.Knows e line ∧ e.PointsAt line start ∧
          Text.lines text.toList =
            ["  ".toList ++ line,
             "  ".toList ++ List.replicate start ' ' ++
               '^' :: List.replicate (e.snippet.length - 1) '~']) := by
  refine ⟨diagnosisText?_eq_none_iff, fun hcolor text htext => ?_⟩
  have hsome : r.diagnosisText? e ≠ none := by simp [htext]
  obtain ⟨line, start, hline, hpoints, hdiagnose⟩ := exists_diagnose? hcolumn hsome
  refine ⟨line, start, hline, hpoints, ?_⟩
  rw [diagnosisText?, hdiagnose, Option.map_some, Option.some.injEq] at htext
  rw [← htext, lines_diagnosisText hcolor rfl (hline.newline_notMem hlined), Diagnosis.marker,
    String.length_toList]

/-- The last `xx` of `xxx + xx;` is the one that is marked, though `xx`
also occurs further left, twice. -/
theorem diagnosisText?_shows_atColumn :
    let r := register "a.lox" "\nxxx + xx;" 1 { color := false }
    let e : Error := { template := [], snippets := ["xx"], line := some 2, column := some 6 }
    let text := "  xxx + xx;\n        ^~"
    r.Lined ∧ (∀ column, e.column = some column → 0 ≤ column) ∧
      r.diagnosisText? e = some text ∧
      ∃ line start, r.Knows e line ∧ e.PointsAt line start ∧
        Text.lines text.toList =
          ["  ".toList ++ line,
           "  ".toList ++ List.replicate start ' ' ++
             '^' :: List.replicate (e.snippet.length - 1) '~'] := by
  intro r e text
  have hlined : r.Lined := (Lined.of_empty rfl).register _ _ _
  have hcolumn : ∀ column, e.column = some column → 0 ≤ column := by
    rintro _ ⟨⟩
    decide
  have htext : r.diagnosisText? e = some text := by decide +kernel
  exact ⟨hlined, hcolumn, htext, (diagnosisText?_shows hlined hcolumn).2 rfl text htext⟩

end Reporter

end LoxLang
