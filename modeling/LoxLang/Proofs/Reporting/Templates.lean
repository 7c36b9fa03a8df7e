import LoxLang.Error
import Mathlib.Data.List.Basic

/-!
# `LoxLang.Proofs.Reporting.Templates`: templates and their written form

Every template has one written form, and the texts that can be read are
these forms. Reading goes from left to right and takes the form of one
part at a time, so that it never looks beyond a part: what is written
behind a template cannot change how the template is read, whichever
braces meet at the seam. A text that is escaped is the written form of
a template without slots, hence it comes out as it was.

* `Template.read?_eq_some_iff`: reading and writing are inverse;
* `Template.fill_append`: a template behind another one is filled with
  the snippets that are left;
* `Error.Draft.error?_eq`: the error of a draft that can be read;
* `Error.Draft.error?_expected`: what was expected may be any text, and
  so may the token that was found;
* `Template.message_escape`: messages with an escaped text in them.
-/

set_option autoImplicit false

namespace LoxLang

namespace Template

/-! ### The written form -/

/-- The written form of a part: a pair of braces for a slot, and for a
character itself, twice if it is a brace. -/
def Part.written : Part → List Char
  | .char c => escape [c]
  | .slot => ['{', '}']

/-- The written form of a template. -/
def written (t : Template) : List Char :=
  t.flatMap Part.written

/-- The part at the front is read by itself. -/
theorem read?_part_append (part : Part) (s : List Char) :
    read? (part.written ++ s) = (read? s).map (part :: ·) := by
  cases part with
  | slot => rfl
  | char c =>
    by_cases hopen : c = '{'
    · subst hopen
      rfl
    by_cases hclose : c = '}'
    · subst hclose
      rfl
    have hwritten : (Part.char c).written = [c] := by simp [Part.written, escape, hopen, hclose]
    rw [hwritten, List.singleton_append, read?.eq_5] <;> simp [hopen, hclose]

/-- A template is read from its written form, whatever stands behind
it. -/
theorem read?_written_append (t : Template) (s : List Char) :
    read? (t.written ++ s) = (read? s).map (t ++ ·) := by
  induction t with
  | nil => simp [written]
  | cons part t ih =>
    have hwritten : written (part :: t) = part.written ++ written t := List.flatMap_cons
    rw [hwritten, List.append_assoc, read?_part_append, ih, Option.map_map]
    rfl

theorem read?_written (t : Template) : read? t.written = some t := by
  have h := read?_written_append t []
  rw [List.append_nil] at h
  rw [h]
  simp [read?]

/-- What can be read is a written form. -/
theorem eq_written_of_read? {s : List Char} {t : Template} (h : read? s = some t) :
    s = t.written := by
  fun_induction read? s generalizing t with
  | case1 =>
    cases h
    rfl
  | case2 s ih =>
    obtain ⟨u, hu, rfl⟩ := Option.map_eq_some_iff.mp h
    exact congrArg (['{', '}'] ++ ·) (ih hu)
  | case3 s ih =>
    obtain ⟨u, hu, rfl⟩ := Option.map_eq_some_iff.mp h
    exact congrArg (['{', '{'] ++ ·) (ih hu)
  | case4 s ih =>
    obtain ⟨u, hu, rfl⟩ := Option.map_eq_some_iff.mp h
    exact congrArg (['}', '}'] ++ ·) (ih hu)
  | case5 => cases h
  | case6 c s _ _ _ hc ih =>
    obtain ⟨u, hu, rfl⟩ := Option.map_eq_some_iff.mp h
    have hwritten : (Part.char c).written = [c] := by simp [Part.written, escape, hc]
    rw [ih hu, written, written, List.flatMap_cons, hwritten, List.singleton_append]

theorem read?_eq_some_iff {s : List Char} {t : Template} : read? s = some t ↔ s = t.written := by
  constructor
  · exact eq_written_of_read?
  · rintro rfl
    exact read?_written t

theorem written_append (t u : Template) :
    written (HAppend.hAppend t u : Template) = t.written ++ u.written :=
  List.flatMap_append

theorem escape_append (s s' : List Char) : escape (s ++ s') = escape s ++ escape s' :=
  List.flatMap_append

/-- An escaped text is the written form of a template without slots. -/
theorem written_ofText (s : String) : (ofText s).written = escape s.toList := by
  rw [written, ofText, List.flatMap_map, escape]
  simp [Part.written, escape]

/-! ### Filling in -/

@[simp] theorem slots_cons_char (c : Char) (t : Template) : slots (.char c :: t) = slots t :=
  List.count_cons_of_ne (by simp)

@[simp] theorem slots_cons_slot (t : Template) : slots (.slot :: t) = slots t + 1 :=
  List.count_cons_self

@[simp] theorem slots_ofText (s : String) : (ofText s).slots = 0 := by
  rw [slots, List.count_eq_zero, ofText]
  intro h
  obtain ⟨c, -, hc⟩ := List.mem_map.mp h
  cases hc

@[simp] theorem slots_slot : slot.slots = 1 := rfl

@[simp] theorem slots_append (t u : Template) :
    (HAppend.hAppend t u : Template).slots = t.slots + u.slots :=
  List.count_append

/-- The snippets that a template leaves go to the one behind it. -/
theorem fill_append (t u : Template) (snippets : List String) :
    fill (HAppend.hAppend t u : Template) snippets =
      t.fill (snippets.take t.slots) ++ u.fill (snippets.drop t.slots) := by
  induction t generalizing snippets with
  | nil => exact (String.empty_append).symm
  | cons part t ih =>
    cases part with
    | char c =>
      rw [slots_cons_char]
      show c.toString ++ fill (t ++ u) snippets = c.toString ++ fill t _ ++ _
      rw [ih, String.append_assoc]
    | slot =>
      rw [slots_cons_slot]
      cases snippets with
      | nil => exact (ih []).trans (by simp [fill])
      | cons s snippets =>
        show s ++ fill (t ++ u) snippets = s ++ fill t _ ++ _
        rw [ih, String.append_assoc]
        rfl

/-- Snippets beyond the slots are left alone. -/
theorem fill_take (t : Template) (snippets : List String) :
    t.fill (snippets.take t.slots) = t.fill snippets := by
  have h := fill_append t [] snippets
  rw [List.append_nil] at h
  rw [h]
  exact String.append_empty.symm

/-- Text takes no snippet and stays as it is. -/
theorem fill_ofText (s : String) (snippets : List String) : (ofText s).fill snippets = s := by
  have hfill (cs : List Char) : fill (cs.map .char) snippets = String.ofList cs := by
    induction cs with
    | nil => rfl
    | cons c cs ih =>
      show String.singleton c ++ fill (cs.map .char) snippets = _
      rw [ih, ← String.ofList_cons]
  rw [ofText, hfill, String.ofList_toList]

theorem fill_slot (s : String) (snippets : List String) : slot.fill (s :: snippets) = s :=
  String.append_empty

/-- Two written forms one behind the other have the slots of both. -/
theorem map_slots_read?_append {s s' : String} {m n : Nat}
    (h : (read? s.toList).map slots = some m) (h' : (read? s'.toList).map slots = some n) :
    (read? (s ++ s').toList).map slots = some (m + n) := by
  obtain ⟨t, ht, rfl⟩ := Option.map_eq_some_iff.mp h
  obtain ⟨u, hu, rfl⟩ := Option.map_eq_some_iff.mp h'
  rw [String.toList_append, eq_written_of_read? ht, read?_written_append, hu, Option.map_some,
    Option.map_some, slots_append]

end Template

/-! ### Drafts -/

namespace Error

namespace Draft

variable {d : Draft} {t : Template}

theorem error?_eq (ht : d.template? = some t) (hslots : t.slots ≤ d.snippets.length) :
    d.error? = some d.error := by
  rw [error?, ht, error, ht]
  exact if_pos hslots

theorem error?_of_slots {n : Nat} (h : d.template?.map Template.slots = some n)
    (hn : n ≤ d.snippets.length) : d.error? = some d.error := by
  obtain ⟨t, ht, rfl⟩ := Option.map_eq_some_iff.mp h
  exact error?_eq ht hn

/-- What was expected and what was found are read as they are, braces
and all. -/
theorem template?_expected (what : String) (found : Token) :
    (expected what found).template? = some
      (Template.ofText ("expected " ++ what ++ ", got ") ++
        if found.lexeme = "" then Template.ofText found.text
        else Template.ofText "'" ++ Template.slot ++ Template.ofText "'") := by
  rw [template?, expected, Template.read?_eq_some_iff]
  split <;>
    simp only [Template.escaped, String.toList_append, String.toList_ofList,
      Template.written_append, Template.written_ofText, Template.escape_append,
      List.append_assoc] <;>
    -- the words around the two texts have no braces
    rfl

theorem error?_expected (what : String) (found : Token) :
    (expected what found).error? = some (Error.expected what found) := by
  refine error?_eq (template?_expected what found) ?_
  rw [expected, Template.slots_append, Template.slots_ofText]
  split <;> simp

end Draft

/-- The error that something else was expected, with its message in
terms of the texts themselves. -/
theorem expected_eq (what : String) (found : Token) :
    expected what found =
      if found.lexeme = "" then
        { cause := .grammar found what
          template := Template.ofText ("expected " ++ what ++ ", got ") ++
            Template.ofText found.text
          line := some found.line
          diagnosis := false }
      else
        { cause := .grammar found what
          template := Template.ofText ("expected " ++ what ++ ", got ") ++
            (Template.ofText "'" ++ Template.slot ++ Template.ofText "'")
          snippets := [found.lexeme]
          line := some found.line
          column := found.column } := by
  rw [expected, Draft.error_of_template? (Draft.template?_expected what found), Draft.expected]
  split <;> rfl

/-- A token with a text is quoted where something else was expected. -/
theorem message_expected (what : String) {found : Token} (h : found.lexeme ≠ "") :
    (expected what found).message =
      "expected " ++ what ++ ", got '" ++ found.lexeme ++ "'" := by
  -- the two texts in front of the slot make one
  have hlead : "expected " ++ what ++ ", got " ++ "'" = "expected " ++ what ++ ", got '" :=
    String.append_assoc
  rw [expected_eq, if_neg h, message]
  simp only [Template.fill_append, Template.fill_ofText, Template.slots_append,
    Template.slots_ofText, List.drop_zero, Template.slots_slot, Nat.zero_add,
    List.take_succ_cons, Template.fill_slot, ← hlead, String.append_assoc]

end Error

/-! ### Messages -/

namespace Template

/-- An escaped text in the middle of a template stays what it is, and
the parts of the template around it are filled as if it was not there.
So what was expected is named in a message as it is, and so is the text
of the token that was found. -/
theorem message_escape :
    (∀ (p q : Template) (text : String) (snippets : List String),
      p.slots + q.slots ≤ snippets.length →
      ∃ t, read? (p.written ++ escape text.toList ++ q.written) = some t ∧
        ∀ e : Error, e.template = t → e.snippets = snippets →
          e.Fits ∧ e.message =
            p.fill (snippets.take p.slots) ++ text ++
              q.fill ((snippets.drop p.slots).take q.slots)) ∧
    ∀ (what : String) (found : Token), found.lexeme ≠ "" →
      read? ("expected ".toList ++ escape what.toList ++ ", got '\x7b\x7d'".toList) =
          some (Error.expected what found).template ∧
        (Error.expected what found).message =
          "expected " ++ what ++ ", got '" ++ found.lexeme ++ "'" := by
  refine ⟨fun p q text snippets hlength => ?_, fun what found hfound => ?_⟩
  · refine ⟨p ++ ofText text ++ q, ?_, ?_⟩
    · rw [read?_eq_some_iff, written_append, written_append, written_ofText]
    · intro e htemplate hsnippets
      constructor
      · rw [Error.Fits, htemplate, hsnippets]
        simpa using hlength
      · rw [Error.message, htemplate, hsnippets]
        simp [fill_append, fill_ofText, fill_take, String.append_assoc]
  · refine ⟨?_, Error.message_expected what hfound⟩
    have hwritten : ("expected ".toList ++ escape what.toList ++ ", got '\x7b\x7d'".toList) =
        (Error.Draft.expected what found).template.toList := by
      rw [Error.Draft.expected, if_neg hfound]
      simp [escaped]
    have hread := Error.Draft.template?_expected what found
    rw [Error.expected, Error.Draft.error_of_template? hread, hwritten]
    exact hread

/-- Runs of braces at both seams: a slot and a brace, the text `{}}`, and
a brace and a slot. The snippets are braces too, and so is the token
that is found. -/
theorem message_escape_braces :
    (∃ t, read? "\x7b\x7d\x7b\x7b\x7b\x7b\x7d\x7d\x7d\x7d\x7d\x7d\x7b\x7d".toList = some t ∧
      Error.message { template := t, snippets := ["\x7b\x7d", "\x7d"] } =
        "\x7b\x7d\x7b\x7b\x7d\x7d\x7d\x7d") ∧
    (Error.expected "'\x7d' after block" { kind := .leftBrace, lexeme := "\x7b", line := 1 }).message =
      "expected '\x7d' after block, got '\x7b'" := by
  constructor
  · obtain ⟨t, hread, hmessage⟩ := message_escape.1 [.slot, .char '{'] [.char '}', .slot]
      "\x7b\x7d\x7d" ["\x7b\x7d", "\x7d"] (by decide)
    have hfilled := (hmessage { template := t, snippets := _ } rfl rfl).2
    exact ⟨t, hread, hfilled.trans (by decide +kernel)⟩
  · exact (message_escape.2 _ { kind := .leftBrace, lexeme := "\x7b", line := 1 } (by decide)).2

end Template

end LoxLang
