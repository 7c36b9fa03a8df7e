import LoxLang.Number.Numeral
import LoxLang.Proofs.Lexical.Forms

/-!
# `LoxLang.Proofs.Lexical.Numerals`: the numerals of Lox source

Of the many ways in which a number can be written, Lox source has two:
digits, and digits with a point and more digits behind it. In these
there is nothing to trim, to replace or to leave out, so each denotes
the number of its digits, moved behind the point
(`Numeral.ofText?_digits`, `Numeral.ofText?_fraction`).
-/

set_option autoImplicit false

namespace LoxLang

open Lexeme

/-! ### Characters -/

/-- The ten digits. -/
def Lexeme.digits : List Char :=
  ['0', '1', '2', '3', '4', '5', '6', '7', '8', '9']

theorem mem_digits {c : Char} (h : c.isDigit = true) : c ∈ digits := by
  simp only [Char.isDigit, Bool.and_eq_true, decide_eq_true_eq] at h
  -- the digits are the code points from 48 to 57
  have hlow : 48 ≤ c.toNat := h.1
  have hhigh : c.toNat ≤ 57 := h.2
  have hall : ∀ n < 10, Char.ofNat (48 + n) ∈ digits := by decide
  have := hall (c.toNat - 48) (by omega)
  rwa [Nat.add_sub_cancel' hlow, Char.ofNat_toNat] at this

/-- The characters of a number. -/
def Lexeme.numeric : List Char :=
  '.' :: digits

theorem Lexeme.IsDigits.numeric {ds : List Char} (h : IsDigits ds) : ∀ c ∈ ds, c ∈ numeric :=
  fun c hc => List.mem_cons_of_mem _ (mem_digits (h.2 c hc))

theorem Lexeme.IsDigits.numeric_fraction {ds places : List Char} (h : IsDigits ds)
    (hplaces : IsDigits places) : ∀ c ∈ ds ++ '.' :: places, c ∈ Lexeme.numeric := by
  intro c hc
  rw [List.mem_append, List.mem_cons] at hc
  rcases hc with hc | rfl | hc
  · exact h.numeric c hc
  · exact List.mem_cons_self
  · exact hplaces.numeric c hc

/-- Nothing is done to the characters of a number. -/
theorem plain_of_mem_numeric {c : Char} (h : c ∈ numeric) :
    Text.isSpace c = false ∧ Text.plainDigit c = c := by
  have hall : numeric.all (fun d => !Text.isSpace d && Text.plainDigit d == d) = true := by
    decide
  simpa using List.all_eq_true.mp hall c h

/-- A digit is no sign, and neither `inf` nor `nan` begins with one. -/
theorem ne_of_isDigit {c : Char} (h : c.isDigit = true) :
    (c ≠ '-' ∧ c ≠ '+') ∧ c.toLower ≠ 'i' ∧ c.toLower ≠ 'n' := by
  have hall : digits.all (fun d => (d ≠ '-' ∧ d ≠ '+') ∧ d.toLower ≠ 'i' ∧ d.toLower ≠ 'n') =
      true := by decide
  exact of_decide_eq_true (List.all_eq_true.mp hall c (mem_digits h))

/-! ### Nothing to normalise -/

theorem Text.trim_eq_self {p : Char → Bool} {s : List Char} (h : ∀ c ∈ s, p c = false) :
    Text.trim p s = s := by
  have hdrop (t : List Char) (ht : ∀ c ∈ t, p c = false) : t.dropWhile p = t := by
    cases t with
    | nil => rfl
    | cons c t => simp [ht c (by simp)]
  rw [Text.trim, hdrop s h, hdrop s.reverse (by simpa using h), List.reverse_reverse]

theorem Numeral.dropUnderscores_eq_self {s : List Char} (h : '_' ∉ s) (before : Option Char) :
    Numeral.dropUnderscores before s = s := by
  induction s generalizing before with
  | nil => rfl
  | cons c s ih =>
    rw [List.mem_cons, not_or] at h
    rw [Numeral.dropUnderscores, ih h.2]
    simp [Ne.symm h.1]

theorem Decimal.splitSign_cons {c : Char} (h : c.isDigit = true) (s : List Char) :
    Decimal.splitSign (c :: s) = (false, c :: s) := by
  obtain ⟨⟨hminus, hplus⟩, -⟩ := ne_of_isDigit h
  rw [Decimal.splitSign.eq_3] <;> simp [hminus, hplus]

/-- A text that begins with a digit is no name. -/
theorem Numeral.ofName?_cons {c : Char} (h : c.isDigit = true) (s : List Char) :
    Numeral.ofName? (c :: s) = none := by
  obtain ⟨-, hi, hn⟩ := ne_of_isDigit h
  have hname (d : Char) (name : List Char) (hd : c.toLower ≠ d) :
      String.ofList ((c :: s).map Char.toLower) ≠ String.ofList (d :: name) := by
    intro heq
    rw [String.ofList_inj, List.map_cons] at heq
    exact hd (List.cons.inj heq).1
  -- the three names begin with `i` and `n`, in small or capital letters
  rw [Numeral.ofName?, Decimal.splitSign_cons h]
  show (if _ then _ else if _ then _ else _) = _
  rw [if_neg, if_neg]
  · exact hname 'n' ['a', 'n'] hn
  · rw [not_or]
    exact ⟨hname 'i' ['n', 'f'] hi, hname 'i' ['n', 'f', 'i', 'n', 'i', 't', 'y'] hi⟩

/-- A numeral of digits and points is a decimal number as it stands. -/
theorem Numeral.ofText?_eq {c : Char} {s : List Char} (hc : c.isDigit = true)
    (h : ∀ d ∈ c :: s, d ∈ numeric) :
    Numeral.ofText? (c :: s) = (Decimal.ofText? (c :: s)).map .finite := by
  have htrim : Text.trim Text.isSpace (c :: s) = c :: s :=
    Text.trim_eq_self fun d hd => (plain_of_mem_numeric (h d hd)).1
  have hmap : (c :: s).map Text.plainDigit = c :: s := by
    rw [List.map_congr_left fun d hd => (plain_of_mem_numeric (h d hd)).2, List.map_id']
  have hdrop : Numeral.dropUnderscores none (c :: s) = c :: s :=
    Numeral.dropUnderscores_eq_self (fun hd => absurd (h _ hd) (by decide)) none
  rw [Numeral.ofText?, htrim, hmap, hdrop, Numeral.ofName?_cons hc]

/-! ### The two forms -/

/-- A run of characters of a class ends where one of another class
follows, or the text ends. -/
theorem Text.takeWhile_run {p : Char → Bool} {s t : List Char} (h : ∀ c ∈ s, p c = true)
    (ht : ∀ c ∈ t.head?, p c = false) : (s ++ t).takeWhile p = s := by
  rw [List.takeWhile_append_of_pos h]
  cases t with
  | nil => simp
  | cons c t => simp [ht c rfl]

theorem Text.dropWhile_run {p : Char → Bool} {s t : List Char} (h : ∀ c ∈ s, p c = true)
    (ht : ∀ c ∈ t.head?, p c = false) : (s ++ t).dropWhile p = t := by
  rw [List.dropWhile_append_of_pos h]
  cases t with
  | nil => rfl
  | cons c t => simp [ht c rfl]

/-- The fraction of a numeral with its point, if there are digits in
it. -/
def Decimal.pointText : List Char → List Char
  | [] => []
  | places => '.' :: places

/-- A numeral without a sign is digits with a fraction, and an exponent
behind them. -/
theorem Decimal.ofText?_mantissa {ds places : List Char} (h : IsDigits ds)
    (hplaces : ∀ c ∈ places, c.isDigit = true) (tail : List Char)
    (htail : ∀ c ∈ tail.head?, c.isDigit = false ∧ c ≠ '.') :
    ofText? (ds ++ (pointText places ++ tail)) =
      (exponentOfText? tail).map fun e =>
        ⟨false, natOfDigits (ds ++ places), e - places.length⟩ := by
  obtain ⟨hne, hall⟩ := h
  -- the digits end at the point or in front of the exponent
  have hrest : ∀ c ∈ (pointText places ++ tail).head?, c.isDigit = false := by
    cases places with
    | nil => exact fun c hc => (htail c hc).1
    | cons p places => rintro c ⟨⟩; rfl
  have htake := Text.takeWhile_run hall hrest
  have hdrop := Text.dropWhile_run hall hrest
  cases ds with
  | nil => exact absurd rfl hne
  | cons c s =>
    rw [ofText?, List.cons_append, splitSign_cons (hall c (by simp)), ← List.cons_append]
    simp only [htake, hdrop]
    cases places with
    | nil =>
      have htail' : ∀ s, pointText [] ++ tail ≠ '.' :: s := by
        rintro s rfl
        exact (htail '.' rfl).2 rfl
      split
      · next heq => exact absurd heq (htail' _)
      · simp [pointText]
    | cons p places =>
      have hend : ∀ c ∈ tail.head?, c.isDigit = false := fun c hc => (htail c hc).1
      have htake' := Text.takeWhile_run hplaces hend
      have hdrop' := Text.dropWhile_run hplaces hend
      rw [List.cons_append] at htake' hdrop'
      simp [pointText, htake', hdrop']

theorem Decimal.ofText?_append_pointText {ds places : List Char} (h : IsDigits ds)
    (hplaces : ∀ c ∈ places, c.isDigit = true) :
    ofText? (ds ++ pointText places) =
      some ⟨false, natOfDigits (ds ++ places), -places.length⟩ := by
  simpa [exponentOfText?] using ofText?_mantissa h hplaces [] (by simp)

theorem Decimal.ofText?_digits {ds : List Char} (h : IsDigits ds) :
    ofText? ds = some ⟨false, natOfDigits ds, 0⟩ := by
  simpa [pointText] using ofText?_append_pointText h (List.forall_mem_nil _)

theorem Decimal.ofText?_fraction {ds places : List Char} (h : IsDigits ds)
    (hplaces : IsDigits places) :
    ofText? (ds ++ '.' :: places) =
      some ⟨false, natOfDigits (ds ++ places), -places.length⟩ := by
  obtain ⟨p, places, rfl⟩ := List.exists_cons_of_ne_nil hplaces.1
  exact ofText?_append_pointText h hplaces.2

theorem Numeral.ofText?_digits {ds : List Char} (h : IsDigits ds) :
    Numeral.ofText? ds = some (.finite ⟨false, Decimal.natOfDigits ds, 0⟩) := by
  cases ds with
  | nil => exact absurd rfl h.1
  | cons c s =>
    rw [Numeral.ofText?_eq (h.2 c (by simp)) h.numeric, Decimal.ofText?_digits h]
    rfl

theorem Numeral.ofText?_fraction {ds places : List Char} (h : IsDigits ds)
    (hplaces : IsDigits places) :
    Numeral.ofText? (ds ++ '.' :: places) =
      some (.finite ⟨false, Decimal.natOfDigits (ds ++ places), -places.length⟩) := by
  have hnumeric := h.numeric_fraction hplaces
  cases ds with
  | nil => exact absurd rfl h.1
  | cons c s =>
    rw [List.cons_append] at hnumeric ⊢
    rw [Numeral.ofText?_eq (h.2 c (by simp)) hnumeric, ← List.cons_append,
      Decimal.ofText?_fraction h hplaces]
    rfl

end LoxLang
