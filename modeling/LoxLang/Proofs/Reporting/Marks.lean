import LoxLang.Proofs.Text.Lines
import LoxLang.Reporter

/-!
# `LoxLang.Proofs.Reporting.Marks`: known lines and what is marked in them

A reporter that knows the lines of a text finds each of them under its
number, whatever it knew before. If the line of an error has the first
snippet of the error somewhere in it, an occurrence of that is marked.
If the snippet stands at the column of the error, that very place is
marked (`Reporter.Marks`), wherever else in the line it occurs.

* `Error.PointsAt`: the occurrence that is meant;
* `Diagnosis.find?_eq_none_iff`, `Diagnosis.exists_of_occurs`: when there
  is a diagnosis of a line, and where it points;
* `Reporter.getElem?_lines_register`: the lines known behind a text;
* `Reporter.marks_of_prefix`: the place that is marked;
* `Reporter.diagnose?_of_newline`, `Reporter.diagnose?_of_empty`:
  snippets that cannot be marked.
-/

set_option autoImplicit false

namespace LoxLang

/-! ### The marked occurrence -/

/-- The offset in a line that a diagnosis of an error points at. The
snippet of the error stands there. It is the column of the error if the
snippet stands at that, and otherwise the snippet stands nowhere further
left. -/
structure Error.PointsAt (e : Error) (line : List Char) (start : Nat) : Prop where
  stands : e.snippet.toList <+: line.drop start
  column : ∀ column : Nat, e.column = some (column : Int) →
    e.snippet.toList <+: line.drop column → start = column
  leftmost : (∀ column : Nat, e.column = some (column : Int) →
      ¬ e.snippet.toList <+: line.drop column) →
    ∀ j < start, ¬ e.snippet.toList <+: line.drop j

namespace Diagnosis

variable {e : Error} {line : List Char}

/-- Where the marked part starts, given where the snippet first
occurs. -/
theorem exists_startOf {first : Nat} (hcolumn : ∀ column, e.column = some column → 0 ≤ column)
    (hfirst : Text.indexOf? e.snippet.toList line = some first) :
    ∃ start : Nat, startOf e line first = start ∧ e.PointsAt line start := by
  obtain ⟨hstands, hleftmost⟩ := Text.prefix_of_indexOf? hfirst
  rw [startOf]
  cases hc : e.column with
  | none => exact ⟨first, rfl, hstands, by simp [hc], fun _ => hleftmost⟩
  | some column =>
    obtain ⟨k, rfl⟩ := Int.eq_ofNat_of_zero_le (hcolumn column hc)
    by_cases hk : e.snippet.toList <+: line.drop k
    · refine ⟨k, if_pos (Text.slice_eq_iff_prefix.mpr hk), hk, ?_, ?_⟩
      · intro column hcolumn' _
        rw [hc, Option.some.injEq] at hcolumn'
        omega
      · exact fun hnot => absurd hk (hnot k hc)
    · refine ⟨first, if_neg (Text.slice_eq_iff_prefix.not.mpr hk), hstands, ?_, fun _ => hleftmost⟩
      intro column hcolumn' hstands'
      rw [hc, Option.some.injEq] at hcolumn'
      obtain rfl : k = column := by omega
      exact absurd hstands' hk

/-- There is no diagnosis of a line exactly if there is nothing to point
at, or it does not occur in the line. -/
theorem find?_eq_none_iff :
    find? e line = none ↔ e.snippet = "" ∨ ¬ e.snippet.toList <:+: line := by
  by_cases hempty : e.snippet.toList = []
  · have hsnippet : e.snippet = "" := by simpa using hempty
    simp [find?, hsnippet]
  · have hsnippet : e.snippet ≠ "" := by simpa using hempty
    rw [find?, if_neg hempty, Option.map_eq_none_iff, ← Option.not_isSome_iff_eq_none,
      Text.isSome_indexOf?_iff]
    simp [hsnippet]

/-- What occurs in a line is pointed at. -/
theorem exists_of_occurs (hcolumn : ∀ column, e.column = some column → 0 ≤ column)
    (hne : e.snippet ≠ "") (hoccurs : e.snippet.toList <:+: line) :
    ∃ start : Nat, e.PointsAt line start ∧
      find? e line = some { line, start, length := e.snippet.toList.length } := by
  have hne' : e.snippet.toList ≠ [] := by simpa using hne
  obtain ⟨first, hfirst⟩ := Option.isSome_iff_exists.mp (Text.isSome_indexOf?_iff.mpr hoccurs)
  obtain ⟨start, hstart, hpoints⟩ := exists_startOf hcolumn hfirst
  refine ⟨start, hpoints, ?_⟩
  simp only [find?, if_neg hne', hfirst, Option.map_some, hstart]

/-- A snippet that stands at the column is pointed at there, though it may
also occur further to the left. -/
theorem find?_of_prefix {column : Nat} (hcolumn : e.column = some (column : Int))
    (hne : e.snippet ≠ "") (h : e.snippet.toList <+: line.drop column) :
    find? e line = some { line, start := column, length := e.snippet.toList.length } := by
  have hpositive : ∀ column, e.column = some column → 0 ≤ column := by
    rw [hcolumn]
    rintro _ ⟨⟩
    exact Int.natCast_nonneg column
  have hoccurs : e.snippet.toList <:+: line := h.isInfix.trans (List.drop_suffix _ _).isInfix
  obtain ⟨start, hpoints, hfind⟩ := exists_of_occurs hpositive hne hoccurs
  rw [hfind, hpoints.column column hcolumn h]

end Diagnosis

namespace Reporter

/-! ### Known lines -/

variable {r : Reporter} {e : Error} {number : Int} {column : Nat}

/-- Making lines known changes nothing else. -/
theorem addLines_eq (first : Int) (ls : List (List Char)) (r : Reporter) :
    addLines first ls r = { r with lines := (addLines first ls r).lines } := by
  induction ls generalizing first r with
  | nil => rfl
  | cons l ls ih => exact ih (first + 1) { r with lines := r.lines.insert first l }

theorem getElem?_lines_addLines (first : Int) (ls : List (List Char)) (r : Reporter) (n : Int) :
    (addLines first ls r).lines[n]? =
      if first ≤ n then (ls[(n - first).toNat]?).or r.lines[n]? else r.lines[n]? := by
  induction ls generalizing first r with
  | nil => simp [addLines]
  | cons l ls ih =>
    rw [addLines, ih, Std.TreeMap.getElem?_insert]
    simp only [Std.LawfulEqCmp.compare_eq_iff_eq]
    -- the first line is put in before the others, which have other numbers
    rcases lt_trichotomy first n with hlt | rfl | hgt
    · have hindex : (n - first).toNat = (n - (first + 1)).toNat + 1 := by omega
      rw [if_pos (by omega), if_pos hlt.le, if_neg hlt.ne, hindex, List.getElem?_cons_succ]
    · rw [if_neg (by omega), if_pos rfl, if_pos le_rfl, Int.sub_self]
      rfl
    · rw [if_neg (by omega), if_neg hgt.ne', if_neg (by omega)]

/-- Behind a text its lines are known, and what was known under other
numbers still is. -/
theorem getElem?_lines_register (path source : String) (first : Int) (r : Reporter) (n : Int) :
    (r.register path source first).lines[n]? =
      if first ≤ n then
        ((Text.lines source.toList)[(n - first).toNat]?).or r.lines[n]?
      else r.lines[n]? :=
  getElem?_lines_addLines first _ _ n

/-- A line of a text is known under its number. -/
theorem known_of_line {path source : String} {first : Int} {k : Nat} {l : List Char}
    (h : (Text.lines source.toList)[k]? = some l) :
    (r.register path source first).lines[first + k]? = some l := by
  rw [getElem?_lines_register, if_pos (by omega), show (first + k - first).toNat = k by omega, h,
    Option.some_or]

/-- What is known behind a text is one of its lines, or was known
before. -/
theorem known_cases {path source : String} {first : Int} {l : List Char}
    (h : (r.register path source first).lines[number]? = some l) :
    l ∈ Text.lines source.toList ∨ r.lines[number]? = some l := by
  rw [getElem?_lines_register] at h
  split at h
  · rcases Option.or_eq_some_iff.mp h with hnew | ⟨-, hold⟩
    · exact .inl (List.mem_of_getElem? hnew)
    · exact .inr hold
  · exact .inr h

/-! ### Marked places -/

/-- The message for an error comes with a diagnosis, and this shows the
known line with the number of the error and marks the snippet of the
error at its column, where it stands. -/
structure Marks (r : Reporter) (e : Error) (number : Int) (column : Nat) : Prop where
  line_eq : e.line = some number
  column_eq : e.column = some (column : Int)
  asked : e.internal = false ∧ e.diagnosis = true
  shown : ∃ text, r.lines[number]? = some text ∧
    e.snippet ≠ "" ∧ e.snippet.toList <+: text.drop column ∧
    r.diagnose? e =
      some { line := text, start := column, length := e.snippet.toList.length }

theorem diagnose?_of_known {text : List Char} (hline : e.line = some number)
    (hknown : r.lines[number]? = some text) : r.diagnose? e = Diagnosis.find? e text := by
  rw [diagnose?, hline]
  simp [hknown]

/-- What stands at the column of the known line of an error is marked. -/
theorem marks_of_prefix {text : List Char} (hline : e.line = some number)
    (hcolumn : e.column = some (column : Int))
    (hasked : e.internal = false ∧ e.diagnosis = true)
    (hknown : r.lines[number]? = some text) (hne : e.snippet ≠ "")
    (hstarts : e.snippet.toList <+: text.drop column) : r.Marks e number column where
  line_eq := hline
  column_eq := hcolumn
  asked := hasked
  shown := ⟨text, hknown, hne, hstarts, by
    rw [diagnose?_of_known hline hknown, Diagnosis.find?_of_prefix hcolumn hne hstarts]⟩

/-- Nothing is marked for a snippet that goes over the end of a line. -/
theorem diagnose?_of_newline {text : List Char} (hline : e.line = some number)
    (hknown : r.lines[number]? = some text) (htext : '\n' ∉ text)
    (hsnippet : '\n' ∈ e.snippet.toList) : r.diagnose? e = none := by
  rw [diagnose?_of_known hline hknown, Diagnosis.find?_eq_none_iff]
  exact .inr fun hoccurs => htext (hoccurs.subset hsnippet)

/-- Nothing is marked without a snippet. -/
theorem diagnose?_of_empty (h : e.snippet = "") : r.diagnose? e = none := by
  have hnone (text : List Char) : Diagnosis.find? e text = none :=
    Diagnosis.find?_eq_none_iff.mpr (.inl h)
  simp [diagnose?, hnone]

end Reporter

end LoxLang
