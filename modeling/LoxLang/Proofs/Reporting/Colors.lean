import LoxLang.Fault
import LoxLang.Proofs.Reporting.Marks
import Mathlib.Data.List.Basic
import Mathlib.Data.Nat.Digits.Defs

/-!
# `LoxLang.Proofs.Reporting.Colors`: colour adds nothing but codes

A message in colour and the same message without differ in terminal
codes only. `Style.erase` takes the codes out of a text. The two
messages are made in different ways: in colour the template is filled in
once more, with snippets that have codes around them, and every other
part is wrapped as it is put in. As long as no text that goes into a
message has an escape character of its own (`Reporter.Codeless`), each
part in colour covers the same part without (`Style.Covers`), and so do
parts that stand one behind another.

* `Style.erase_append`: text without an escape character stays;
* `Error.covers_highlighted`: the message filled in with wrapped
  snippets;
* `Reporter.covers_diagnosisText`: the diagnosis part by part;
* `Reporter.erase_render`: the message in colour without its codes.
-/

set_option autoImplicit false

namespace LoxLang

/-! ### Codes -/

namespace Style

/-- The character that every terminal code begins with. -/
def escape : Char := '\x1b'

/-- A text without the terminal codes in it. -/
def erase : List Char → List Char
  | [] => []
  | '\x1b' :: '[' :: '0' :: 'm' :: s => erase s
  | '\x1b' :: '[' :: '1' :: 'm' :: s => erase s
  | '\x1b' :: '[' :: '3' :: '1' :: 'm' :: s => erase s
  | c :: s => c :: erase s

theorem erase_cons {c : Char} (h : c ≠ escape) (s : List Char) : erase (c :: s) = c :: erase s := by
  rw [erase] <;> rintro - rfl <;> exact absurd rfl h

/-- Text without an escape character stays as it is, whatever stands
behind it. -/
theorem erase_append {text : List Char} (h : escape ∉ text) (s : List Char) :
    erase (text ++ s) = text ++ erase s := by
  induction text with
  | nil => rfl
  | cons c text ih =>
    obtain ⟨hc, htext⟩ := not_or.mp (List.mem_cons.not.mp h)
    rw [List.cons_append, erase_cons (Ne.symm hc), ih htext, List.cons_append]

theorem erase_codes (style : Style) (s : List Char) :
    erase (style.codes.toList ++ s) = erase s := by
  cases style <;> rfl

theorem erase_reset (s : List Char) : erase (reset.toList ++ s) = erase s := rfl

/-- The second text is the first one without its codes, whatever stands
behind the two. -/
def Covers (painted plain : String) : Prop :=
  ∀ s, erase (painted.toList ++ s) = plain.toList ++ erase s

variable {painted plain painted' plain' text : String}

theorem Covers.erase_eq (h : Covers painted plain) : erase painted.toList = plain.toList := by
  simpa [erase] using h []

theorem Covers.append (h : Covers painted plain) (h' : Covers painted' plain') :
    Covers (painted ++ painted') (plain ++ plain') := by
  intro s
  rw [String.toList_append, List.append_assoc, h, h', String.toList_append, List.append_assoc]

/-- Text without an escape character has no codes. -/
theorem covers_self (h : escape ∉ text.toList) : Covers text text :=
  erase_append h

/-- A wrapped text loses its codes again. -/
theorem covers_wrap (style : Style) (h : escape ∉ text.toList) :
    Covers (style.wrap text) text := by
  intro s
  rw [wrap, String.toList_append, String.toList_append, List.append_assoc, List.append_assoc,
    erase_codes, erase_append h, erase_reset]

end Style

open Style (Covers covers_self covers_wrap)

/-! ### Messages -/

/-- A template is covered by the same template with its snippets
wrapped. -/
theorem Template.covers_fill {t : Template} {snippets : List String}
    (ht : Part.char Style.escape ∉ t) (hsnippets : ∀ s ∈ snippets, Style.escape ∉ s.toList) :
    Covers (t.fill (snippets.map Style.bold.wrap)) (t.fill snippets) := by
  fun_induction fill t snippets with
  | case1 => exact @covers_self "" (by decide)
  | case2 c t snippets ih =>
    obtain ⟨hc, ht⟩ := not_or.mp (List.mem_cons.not.mp ht)
    have hchar : Style.escape ∉ c.toString.toList := by
      intro h
      rw [Char.toString, String.toList_singleton, List.mem_singleton] at h
      exact hc (congrArg Part.char h)
    exact (covers_self hchar).append (ih ht hsnippets)
  | case3 t ih => exact ih (List.not_mem_of_not_mem_cons ht) hsnippets
  | case4 t s snippets ih =>
    obtain ⟨hs, hsnippets⟩ := List.forall_mem_cons.mp hsnippets
    exact (covers_wrap .bold hs).append (ih (List.not_mem_of_not_mem_cons ht) hsnippets)

theorem Error.covers_highlighted {e : Error} (ht : Template.Part.char Style.escape ∉ e.template)
    (hsnippets : ∀ s ∈ e.snippets, Style.escape ∉ s.toList) :
    Covers (e.highlighted true) (e.highlighted false) :=
  Template.covers_fill ht hsnippets

/-- A template that is filled in, with wrapped snippets or without, is
made of its parts. -/
theorem Template.fill_eq_paint (color : Bool) (t : Template) (snippets : List String) :
    t.fill (snippets.map fun s => if color then Style.bold.wrap s else s) =
      String.ofList (Span.paint color (t.spans snippets)) := by
  fun_induction spans t snippets with
  | case1 => rfl
  | case2 c t snippets ih =>
    have hchar : c.toString = String.ofList [c] := by
      rw [Char.toString, String.singleton_eq_ofList]
    rw [fill, ih, hchar, ← String.ofList_append]
    cases color <;> rfl
  | case3 t ih => exact ih
  | case4 t s snippets ih =>
    rw [List.map_cons, fill, ih, ← String.toList_inj]
    cases color <;> simp [Span.paint, Span.painted]

/-- A message to show, part by part. -/
theorem Error.highlighted_eq_paint (color : Bool) (e : Error) :
    e.highlighted color = String.ofList (Span.paint color e.spans) := by
  rw [spans, ← Template.fill_eq_paint]
  cases color
  · exact congrArg e.template.fill (List.map_id' e.snippets).symm
  · rfl

theorem Diagnosis.line_of_find? {e : Error} {line : List Char} {d : Diagnosis}
    (h : Diagnosis.find? e line = some d) : d.line = line := by
  rw [find?] at h
  split at h
  · contradiction
  · obtain ⟨first, -, rfl⟩ := Option.map_eq_some_iff.mp h
    rfl

namespace Reporter

variable {r : Reporter} {e : Error}

/-- No text that goes into the message for an error has an escape
character in it. -/
structure Codeless (r : Reporter) (e : Error) : Prop where
  path : ∀ path, r.path = some path → Style.escape ∉ path.toList
  lines : ∀ (number : Int) (line : List Char), r.lines[number]? = some line → Style.escape ∉ line
  template : Template.Part.char Style.escape ∉ e.template
  snippets : ∀ s ∈ e.snippets, Style.escape ∉ s.toList

/-- A text without escape characters can be made known. -/
theorem Codeless.register (h : r.Codeless e) {path source : String} {first : Int}
    (hpath : Style.escape ∉ path.toList) (hsource : Style.escape ∉ source.toList) :
    (r.register path source first).Codeless e where
  path := by
    rw [Reporter.register, addLines_eq]
    rintro _ ⟨⟩
    exact hpath
  lines number line hline := by
    rcases known_cases hline with hnew | hold
    · exact fun hescape => hsource (Text.subset_of_mem_lines hnew hescape)
    · exact h.lines number line hold
  template := h.template
  snippets := h.snippets

theorem exists_line_of_diagnose? {d : Diagnosis} (h : r.diagnose? e = some d) :
    ∃ number : Int, r.lines[number]? = some d.line := by
  obtain ⟨number, -, h⟩ := Option.bind_eq_some_iff.mp h
  obtain ⟨line, hline, h⟩ := Option.bind_eq_some_iff.mp h
  exact ⟨number, by rw [hline, Diagnosis.line_of_find? h]⟩

/-- A number is written with digits and perhaps a sign. -/
theorem not_mem_toString (n : Int) : Style.escape ∉ (toString n).toList := by
  have hnat (n : Nat) : Style.escape ∉ n.repr.toList := fun hmem => by
    rw [Nat.toList_repr] at hmem
    have hdigit := Nat.isDigit_of_mem_toDigits (b := 10) (by decide) (by decide) hmem
    exact absurd hdigit (by decide)
  cases n with
  | ofNat n => exact hnat n
  | negSucc n =>
    change Style.escape ∉ ("-" ++ n.succ.repr).toList
    rw [String.toList_append, List.mem_append, not_or]
    exact ⟨by decide, hnat _⟩

/-! ### Parts of a message -/

theorem covers_colored (r : Reporter) (style : Style) {text : String}
    (h : Style.escape ∉ text.toList) :
    Covers ({ r with color := true }.colored style text)
      ({ r with color := false }.colored style text) :=
  covers_wrap style h

theorem covers_location (h : r.Codeless e) :
    Covers ({ r with color := true }.location e) ({ r with color := false }.location e) := by
  simp only [location]
  split
  · exact covers_self (by simp)
  · next path hpath _ =>
    exact covers_colored r .bold (by simpa [Style.escape] using h.path path hpath)
  · next path line hpath _ =>
    exact covers_colored r .bold
      (by simpa [Style.escape] using ⟨h.path path hpath, not_mem_toString line⟩)

/-- A diagnosis shows the three parts of its line, and a sign. -/
theorem covers_diagnosisText (r : Reporter) {d : Diagnosis} (h : Style.escape ∉ d.line) :
    Covers ({ r with color := true }.diagnosisText d)
      ({ r with color := false }.diagnosisText d) := by
  have hfront : Style.escape ∉ d.front := fun hmem => h (List.mem_of_mem_take hmem)
  have hmarked : Style.escape ∉ d.marked := fun hmem =>
    h (List.mem_of_mem_take (List.mem_of_mem_drop hmem))
  have hbehind : Style.escape ∉ d.behind := fun hmem => h (List.mem_of_mem_drop hmem)
  have hmarker : Style.escape ∉ d.marker := by
    simp [Diagnosis.marker, Style.escape, List.mem_replicate]
  have hplain {text : List Char} (htext : Style.escape ∉ text) :
      Covers (String.ofList text) (String.ofList text) := covers_self (by simpa using htext)
  have hblanks : Style.escape ∉ List.replicate d.start.toNat ' ' := by
    simp [Style.escape, List.mem_replicate]
  -- the line in its three parts, and below it the sign behind its blanks
  exact (covers_self (by decide)).append (hplain hfront)
    |>.append (covers_colored r .alert (by simpa using hmarked))
    |>.append (hplain hbehind)
    |>.append (covers_self (by decide))
    |>.append (covers_self (by decide))
    |>.append (hplain hblanks)
    |>.append (covers_colored r .alert (by simpa using hmarker))

theorem covers_below (h : r.Codeless e) :
    Covers ({ r with color := true }.below e) ({ r with color := false }.below e) := by
  -- which diagnosis there is does not depend on colour
  have htext (color : Bool) : { r with color }.diagnosisText? e =
      (r.diagnose? e).map { r with color }.diagnosisText := rfl
  rw [below, below, htext, htext]
  cases hd : r.diagnose? e with
  | none =>
    rw [Option.map_none, Option.map_none, ite_self]
    exact covers_self (by decide)
  | some d =>
    obtain ⟨number, hline⟩ := exists_line_of_diagnose? hd
    rw [Option.map_some, Option.map_some]
    cases !e.internal && e.diagnosis with
    | true =>
      exact (covers_self (by decide)).append (covers_diagnosisText r (h.lines number _ hline))
    | false => exact @covers_self "" (by decide)

/-- Without its codes a message in colour is the message without
colour. -/
theorem erase_render (h : r.Codeless e) :
    Style.erase ({ r with color := true }.render e).toList =
      ({ r with color := false }.render e).toList := by
  have hinternal : Covers
      (if e.internal then { r with color := true }.colored .alert "[internal] " else "")
      (if e.internal then { r with color := false }.colored .alert "[internal] " else "") := by
    split
    · exact covers_colored r .alert (by decide)
    · exact covers_self (by decide)
  exact ((covers_location h).append hinternal
    |>.append (covers_colored r .alert (by decide))
    |>.append (Error.covers_highlighted h.template h.snippets)
    |>.append (covers_below h)).erase_eq

/-- An undefined name in the second line of a text, marked at its
column. -/
theorem erase_render_undefined :
    let r := register "a.lox" "var y;\nprint y + x;" 1 {}
    let token : Token := { kind := .identifier, lexeme := "x", line := 2, column := some 10 }
    let e := (Fault.undefined token).error
    r.Codeless e ∧
      Style.erase ({ r with color := true }.render e).toList =
        ({ r with color := false }.render e).toList ∧
      { r with color := false }.render e =
        "a.lox:2: error: undefined variable 'x'\n  print y + x;\n            ^" := by
  intro r token e
  have hempty : ({} : Reporter).Codeless e := ⟨by simp, by simp, by decide, by decide⟩
  have hcodeless : r.Codeless e := hempty.register (by decide) (by decide)
  exact ⟨hcodeless, erase_render hcodeless, by decide +kernel⟩

end Reporter

end LoxLang
