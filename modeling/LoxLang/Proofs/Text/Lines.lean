import LoxLang.Diagnosis
import LoxLang.Proofs.Lexical.Tokenisation

/-!
# `LoxLang.Proofs.Text.Lines`: places in lines

A place in a text is a number of characters in front of it. In terms of
lines it is on the line with the number of newlines in front of it, at
the column where the last line of the text in front ends.

* `Text.lines_append_newline`: a newline between two texts parts their
  lines;
* `Text.exists_line_of_place`: the line that a place is on;
* `Text.exists_line_of_snippet`: what stands at a place and ends before
  the next newline stands in that line at its column;
* `Text.slice_eq_iff_prefix`, `Text.isSome_indexOf?_iff`,
  `Text.prefix_of_indexOf?`: what a diagnosis asks of a line.
-/

set_option autoImplicit false

namespace LoxLang.Text

/-! ### Lines of a text -/

theorem consLine_append (c : Char) {ls : List (List Char)} (h : ls ≠ [])
    (ls' : List (List Char)) : consLine c (ls ++ ls') = consLine c ls ++ ls' := by
  obtain ⟨l, ls, rfl⟩ := List.exists_cons_of_ne_nil h
  by_cases hc : c = '\n' <;> simp [consLine, hc]

/-- A newline between two texts parts their lines. -/
theorem lines_append_newline (s t : List Char) :
    lines (s ++ '\n' :: t) = lines s ++ lines t := by
  induction s with
  | nil => simp [consLine]
  | cons c s ih =>
    rw [List.cons_append, lines_cons, lines_cons, ih, consLine_append c (lines_ne_nil s)]

/-- A text without a newline is its only line. -/
theorem lines_eq_singleton {s : List Char} (h : '\n' ∉ s) : lines s = [s] := by
  induction s with
  | nil => rfl
  | cons c s ih =>
    obtain ⟨hc, hs⟩ := not_or.mp (List.mem_cons.not.mp h)
    rw [lines_cons, ih hs, consLine, if_neg (Ne.symm hc)]

/-- The first of the lines. -/
theorem head?_lines (s : List Char) : (lines s).head? = some (firstLine s) := by
  induction s with
  | nil => rfl
  | cons c s ih =>
    obtain ⟨l, ls, hls⟩ := List.exists_cons_of_ne_nil (lines_ne_nil s)
    rw [hls, List.head?_cons, Option.some.injEq] at ih
    by_cases hc : c = '\n' <;> simp [consLine, hc, hls, ih, firstLine]

/-- Lines have no newline of their own. -/
theorem newline_not_mem_of_mem_lines {l s : List Char} (h : l ∈ lines s) : '\n' ∉ l := by
  induction s generalizing l with
  | nil => simp_all
  | cons c s ih =>
    obtain ⟨first, ls, hls⟩ := List.exists_cons_of_ne_nil (lines_ne_nil s)
    rw [lines_cons, hls] at h
    rw [hls] at ih
    by_cases hc : c = '\n'
    · rw [consLine, if_pos hc, List.mem_cons] at h
      rcases h with rfl | h
      · exact List.not_mem_nil
      · exact ih h
    · simp only [consLine, hc, if_false, List.mem_cons] at h
      rcases h with rfl | h
      · have hfirst := ih List.mem_cons_self
        simp [hfirst, Ne.symm hc]
      · exact ih (List.mem_cons_of_mem first h)

/-- What a line has, the text has. -/
theorem subset_of_mem_lines {l s : List Char} (h : l ∈ lines s) : l ⊆ s := by
  induction s generalizing l with
  | nil => simp_all
  | cons c s ih =>
    obtain ⟨first, ls, hls⟩ := List.exists_cons_of_ne_nil (lines_ne_nil s)
    rw [lines_cons, hls] at h
    rw [hls] at ih
    by_cases hc : c = '\n'
    · rw [consLine, if_pos hc, List.mem_cons] at h
      rcases h with rfl | h
      · exact List.nil_subset _
      · exact List.subset_cons_of_subset c (ih h)
    · simp only [consLine, hc, if_false, List.mem_cons] at h
      rcases h with rfl | h
      · exact List.cons_subset_cons c (ih List.mem_cons_self)
      · exact List.subset_cons_of_subset c (ih (List.mem_cons_of_mem first h))

/-! ### The line of a place -/

theorem endColumn_eq_length {s : List Char} (h : '\n' ∉ s) : endColumn s = s.length := by
  have happend := endColumn_append [] s
  rw [if_neg h] at happend
  simpa [endColumn] using happend

/-- What stands in front of a newline has no part in the line behind. -/
theorem endColumn_append_newline (s t : List Char) :
    endColumn (s ++ '\n' :: t) = endColumn t := by
  rw [endColumn_append, if_pos List.mem_cons_self]
  by_cases h : '\n' ∈ t
  · exact (endColumn_append ['\n'] t).trans (if_pos h)
  · rw [show '\n' :: t = ['\n'] ++ t from rfl, endColumn_append, if_neg h,
      endColumn_eq_length h]
    exact Nat.zero_add t.length

/-- The line that a place is on goes on with the first line of what
stands behind the place, and the column of the place is where it goes
on. -/
theorem exists_line_of_place (before rest : List Char) :
    ∃ l, l.length = endColumn before ∧
      (lines (before ++ rest))[before.count '\n']? = some (l ++ firstLine rest) := by
  by_cases h : '\n' ∈ before
  · -- the lines in front of the first newline are those of another text
    obtain ⟨first, behind, rfl, hfirst⟩ := List.eq_append_cons_of_mem h
    have hlt : behind.length < (first ++ '\n' :: behind).length := by simp; omega
    obtain ⟨l, hlength, hline⟩ := exists_line_of_place behind rest
    refine ⟨l, by rw [hlength, endColumn_append_newline], ?_⟩
    have hcount : (first ++ '\n' :: behind).count '\n' =
        (lines first).length + behind.count '\n' := by
      rw [length_lines, List.count_append, List.count_cons_self]
      omega
    rw [hcount, List.append_assoc, List.cons_append, lines_append_newline,
      List.getElem?_append_right (Nat.le_add_right _ _), Nat.add_sub_cancel_left, hline]
  · refine ⟨before, (endColumn_eq_length h).symm, ?_⟩
    rw [List.count_eq_zero_of_not_mem h, ← List.head?_eq_getElem?, head?_lines, firstLine,
      List.takeWhile_append_of_pos (by simp; grind)]
    rfl
termination_by before.length

theorem newline_not_mem_firstLine (s : List Char) : '\n' ∉ firstLine s :=
  newline_not_mem_of_mem_lines (List.mem_of_mem_head? (head?_lines s))

/-- What stands at a place and has no newline is a part of the line that
the place is on. -/
theorem exists_line_of_snippet (before : List Char) {snippet : List Char}
    (h : '\n' ∉ snippet) (rest : List Char) :
    ∃ l, (lines (before ++ (snippet ++ rest)))[before.count '\n']? = some l ∧
      snippet <+: l.drop (endColumn before) := by
  obtain ⟨l, hlength, hline⟩ := exists_line_of_place before (snippet ++ rest)
  refine ⟨_, hline, ?_⟩
  rw [← hlength, List.drop_left, firstLine,
    List.takeWhile_append_of_pos (by simp; grind)]
  exact List.prefix_append _ _

/-! ### Parts of a line -/

theorem place_natCast (n k : Nat) : place n k = min n k := by
  rw [place, if_neg (by omega), Int.toNat_natCast]

@[simp] theorem take_place (s : List Char) (k : Nat) : s.take (place s.length k) = s.take k := by
  rw [place_natCast, List.take_eq_take_iff]
  omega

@[simp] theorem drop_place (s : List Char) (k : Nat) : s.drop (place s.length k) = s.drop k := by
  rw [place_natCast, List.drop_eq_drop_iff]
  omega

/-- The part of a text between offsets that count from its start. -/
theorem slice_natCast (s : List Char) (start stop : Nat) :
    slice s start stop = (s.drop start).take (stop - start) := by
  rw [slice, take_place, ← List.drop_take, place_natCast, List.drop_eq_drop_iff, List.length_take]
  omega

/-- A snippet is the part of a text from some offset on, as long as the
snippet, exactly if it stands there. -/
theorem slice_eq_iff_prefix {s snippet : List Char} {start : Nat} :
    slice s start (start + snippet.length) = snippet ↔ snippet <+: s.drop start := by
  have hslice : slice s start (start + snippet.length) = (s.drop start).take snippet.length := by
    simpa using slice_natCast s start (start + snippet.length)
  rw [hslice, List.prefix_iff_eq_take, eq_comm]

/-- A text is what stands in front of an offset, the part from there up
to another one, and what stands behind that. -/
theorem take_append_slice_append_drop (s : List Char) {start stop : Nat} (h : start ≤ stop) :
    s.take start ++ slice s start stop ++ s.drop stop = s := by
  have hbehind : (s.drop start).drop (stop - start) = s.drop stop := by
    rw [List.drop_drop, Nat.add_sub_cancel' h]
  rw [slice_natCast, List.append_assoc, ← hbehind, List.take_append_drop, List.take_append_drop]

/-- A text is found in another one exactly if it is a part of it. -/
theorem isSome_indexOf?_iff {needle s : List Char} :
    (indexOf? needle s).isSome ↔ needle <:+: s := by
  induction s with
  | nil => cases needle <;> simp [indexOf?]
  | cons c s ih =>
    rw [indexOf?, List.infix_cons_iff, ← ih]
    split
    · next h => simp [List.isPrefixOf_iff_prefix.mp h]
    · next h => simp [List.isPrefixOf_iff_prefix.not.mp h]

/-- The offset where a text is found is that of its first occurrence. -/
theorem prefix_of_indexOf? {needle s : List Char} {k : Nat} (h : indexOf? needle s = some k) :
    needle <+: s.drop k ∧ ∀ j < k, ¬ needle <+: s.drop j := by
  induction s generalizing k with
  | nil =>
    rw [indexOf?] at h
    split at h
    · next hempty =>
      cases h
      exact ⟨by simp [List.isEmpty_iff.mp hempty], fun j hj => absurd hj (Nat.not_lt_zero j)⟩
    · cases h
  | cons c s ih =>
    rw [indexOf?] at h
    split at h
    · next hhere =>
      cases h
      exact ⟨List.isPrefixOf_iff_prefix.mp hhere, fun j hj => absurd hj (Nat.not_lt_zero j)⟩
    · next hhere =>
      obtain ⟨k, hk, rfl⟩ := Option.map_eq_some_iff.mp h
      obtain ⟨hstands, hleftmost⟩ := ih hk
      refine ⟨hstands, fun j hj => ?_⟩
      cases j with
      | zero => exact List.isPrefixOf_iff_prefix.not.mp hhere
      | succ j => exact hleftmost j (Nat.lt_of_succ_lt_succ hj)

end LoxLang.Text
