import LoxLang.Proofs.Reporting.Templates
import LoxLang.Session

/-!
# `LoxLang.Proofs.Session.Messages`: every message can be filled in

The messages of failures are written out, with pairs of braces for
their slots and with texts from the program or from the library in
between. Each of them can be read as a template, and comes with a
snippet for each of its slots (`Session.Failure.error?_draft`). A text
that could have braces of its own is escaped, or else it is a name
without any.
-/

set_option autoImplicit false

namespace LoxLang

open Error.Draft Template

theorem LexicalFault.error?_draft (fault : LexicalFault) :
    fault.draft.error? = some fault.error := by
  have hslots : ∃ n ≤ 1, (read? fault.draft.template.toList).map slots = some n := by
    cases fault <;> simp only [draft, Error.With.fromWithin] <;> decide +kernel
  obtain ⟨n, hn, hslots⟩ := hslots
  exact error?_of_slots hslots (by cases fault <;> exact hn)

theorem Misplaced.error?_draft (m : Misplaced) : m.draft.error? = some m.error :=
  Error.Draft.error?_expected m.expected m.found

/-- The names of the kinds of value have no braces. -/
theorem Value.Kind.slots_name (kind : Value.Kind) :
    (read? kind.name.toList).map slots = some 0 := by
  cases kind <;> decide

theorem Fault.error?_draft (fault : Fault) : fault.draft.error? = some fault.error := by
  have hslots : ∃ n ≤ 1, (read? fault.draft.template.toList).map slots = some n := by
    have hname {lead : String} (kind : Value.Kind)
        (h : (read? lead.toList).map slots = some 1) :
        (read? (lead ++ kind.name).toList).map slots = some 1 :=
      map_slots_read?_append h kind.slots_name
    have hand : (read? " and ".toList).map slots = some 0 := by decide
    cases fault <;> simp only [draft, atToken, Error.With.execution, Error.With.fromWithin]
    case operand => exact ⟨1, Nat.le_refl 1, hname _ (by decide)⟩
    case operands =>
      exact ⟨1, Nat.le_refl 1, hname _ (map_slots_read?_append (hname _ (by decide)) hand)⟩
    case addends =>
      exact ⟨1, Nat.le_refl 1, hname _ (map_slots_read?_append (hname _ (by decide)) hand)⟩
    all_goals decide +kernel
  obtain ⟨n, hn, hslots⟩ := hslots
  exact error?_of_slots hslots (by cases fault <;> exact hn)

/-- What is said of something unforeseen can be any text. Only its kind
must not have braces. -/
theorem Incident.error?_unforeseenDraft {kind : String} (text : String)
    (hkind : escape kind.toList = kind.toList) :
    (unforeseenDraft kind text).error? = some (unforeseenError kind text) ∧
      (unforeseenError kind text).message = "unknown error: '" ++ kind ++ ": " ++ text ++ "'" := by
  have hread : (unforeseenDraft kind text).template? =
      some (ofText ("unknown error: '" ++ kind ++ ": " ++ text ++ "'")) := by
    rw [template?, read?_eq_some_iff, written_ofText]
    simp only [unforeseenDraft, Error.With.fromWithin, escaped, String.toList_append,
      String.toList_ofList, escape_append, hkind]
    rfl
  refine ⟨error?_eq hread (by simp), ?_⟩
  rw [unforeseenError, Error.Draft.error_of_template? hread]
  exact fill_ofText _ _

/-- The message of a failure can be filled in, whatever the texts in
it. -/
theorem Session.Failure.error?_draft (failure : Session.Failure) :
    failure.draft.error? = some failure.error := by
  cases failure with
  | lexical fault => exact fault.error?_draft
  | grammar misplaced => exact misplaced.error?_draft
  | execution fault => exact fault.error?_draft

end LoxLang
