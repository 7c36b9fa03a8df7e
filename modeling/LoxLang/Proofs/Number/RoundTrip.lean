import LoxLang.Execution
import LoxLang.Proofs.Grammar.Programs
import LoxLang.Proofs.Lexical.Joining
import LoxLang.Proofs.Number.Texts

/-!
# `LoxLang.Proofs.Number.RoundTrip`: the text of a number is its source

The text of a finite number is a positional numeral, perhaps behind a
minus sign. Lox source has such numerals, and its minus sign negates the
number behind it. So the text is an expression again, whose value is the
number, and a zero keeps its sign.

* `Evaluates`: an expression has a value wherever it stands;
* `Decimal.evaluates_text`: the value of the text of a decimal number is
  the float of that;
* `numberText_readsBack`: the text of a finite float has the float for
  its value, and denotes the number that is written for the float with
  the fewest digits.
-/

set_option autoImplicit false

namespace LoxLang

open Lexeme

variable {line : Int} {c : Char} {s : List Char} {x : Float} {payload : Value}

/-! ### Numerals among pieces -/

/-- A piece that begins with a digit is a number. -/
theorem IsPiece.numeric_of_digit {c : Char} {tail : List Char} (h : IsPiece (c :: tail))
    (hc : c.isDigit = true) : ∀ d ∈ c :: tail, d ∈ numeric := by
  generalize htext : c :: tail = text at h
  cases h with
  | gap h =>
    cases h with
    | blank h =>
      obtain ⟨rfl, -⟩ := List.cons_eq_cons.mp htext
      have hall : ∀ b ∈ Piece.blanks, ¬ b.isDigit := Piece.forall_blanks (by decide)
      exact absurd hc (hall c h)
    | comment =>
      obtain ⟨rfl, -⟩ := List.cons_eq_cons.mp htext
      exact absurd hc (by decide)
  | lexeme h =>
    cases h with
    | operator h =>
      have hall : ∀ o ∈ operators, o.1.head?.any Char.isDigit = false := by decide
      have hnot := hall _ h
      rw [← htext] at hnot
      exact absurd hc (by simpa using hnot)
    | string =>
      obtain ⟨rfl, -⟩ := List.cons_eq_cons.mp htext
      exact absurd hc (by decide)
    | whole h => exact h.numeric
    | fraction h hplaces => exact h.numeric_fraction hplaces
    | keyword h | identifier h =>
      obtain ⟨hhead, -⟩ := h
      obtain ⟨rfl, -⟩ := List.cons_eq_cons.mp htext
      exact absurd hc (by simpa [isDigit] using (classes_of_letter hhead).2.2)

/-- No piece goes on behind a minus sign. -/
theorem IsPiece.eq_nil_of_minus {tail : List Char} (h : IsPiece ('-' :: tail)) : tail = [] := by
  generalize htext : '-' :: tail = text at h
  cases h with
  | gap h =>
    cases h with
    | blank => exact (List.cons_eq_cons.mp htext).2
    | comment => cases htext
  | lexeme h =>
    subst htext
    rcases h.head_cases with hoperator | ⟨hquote, -⟩ | hother
    · have hall : ∀ o ∈ operators, o.1.head? = some '-' → o.1.tail = [] := by decide
      exact hall _ hoperator rfl
    · exact absurd hquote (by decide)
    · exact absurd hother (by decide)

theorem Piece.longest_minus (c : Char) (rest : List Char) : Piece.Longest ['-'] (c :: rest) := by
  have hminus : (['-'], .minus) ∈ operators := by decide
  exact (IsPiece.lexeme (.operator hminus)).longest_end.append_of_stop
    (fun behind h => List.cons_ne_nil c behind h.eq_nil_of_minus) rest

/-- A semicolon ends a number. -/
theorem Lexeme.Denotes.longest_semicolon (h : Denotes .number payload (c :: s))
    (hc : c.isDigit = true) (rest : List Char) : Piece.Longest (c :: s) (';' :: rest) :=
  (IsPiece.lexeme h).longest_end.append_of_stop
    (fun _ hpiece => absurd (hpiece.numeric_of_digit hc ';' (by simp)) (by decide)) rest

/-! ### Values of texts -/

/-- The tokens of an expression with a semicolon behind it are read as
the statement. -/
theorem program_expression {ts : List Token} {e : Expr} {source : List Char}
    (h : Cuts line source ts [';']) (hderives : Expr.Derives .expression ts e) :
    ∃ tokens, scan (String.ofList source ++ ";") line = .ok tokens ∧
      program tokens = .ok [.expression e] := by
  have htext : (String.ofList source ++ ";").toList = source ++ [';'] := by simp
  have hsemicolon : Denotes .semicolon .nil [';'] := .operator (by decide)
  have hcuts := Cuts.lexeme h hsemicolon (IsPiece.lexeme hsemicolon).longest_end
  have hstatement : Stmt.DerivesExpression (ts ++ [token line source [';'] .semicolon .nil])
      (.expression e) := .intro hderives rfl
  rw [← htext] at hcuts
  refine ⟨_, scan_of_cuts hcuts, ((program_derives _ _ ?_ rfl).2 _).mpr ?_⟩
  · intro t ht
    obtain ⟨_, hcut⟩ := hcuts.exists_isCut ht
    exact hcut.kind_ne_eof
  · have hall : Stmt.DerivesAll .nearest _ _ := .cons (.expression hstatement) .nil
    rwa [List.append_nil] at hall

/-- As an expression statement, a text is read as one expression, which
has the value in all scopes and leaves them as they are. -/
def Evaluates (source : String) (v : Value) : Prop :=
  ∀ line, ∃ tokens e, scan (source ++ ";") line = .ok tokens ∧
    program tokens = .ok [.expression e] ∧ ∀ chain, (eval e).run.run chain = (.ok v, chain)

theorem evaluates_numeral (h : Denotes .number (.number x) (c :: s)) (hc : c.isDigit = true) :
    Evaluates (String.ofList (c :: s)) (.number x) := by
  intro line
  have hcuts : Cuts line (c :: s) [token line [] (c :: s) .number (.number x)] [';'] :=
    .lexeme .start h (h.longest_semicolon hc [])
  obtain ⟨tokens, hscan, hprogram⟩ := program_expression hcuts (.of_primary (.payload (.inl rfl)))
  exact ⟨tokens, _, hscan, hprogram, fun _ => rfl⟩

theorem evaluates_negated (h : Denotes .number (.number x) (c :: s)) (hc : c.isDigit = true) :
    Evaluates (String.ofList ('-' :: c :: s)) (.number (-x)) := by
  intro line
  have hminus : Denotes .minus .nil ['-'] := .operator (by decide)
  have hsign : Cuts line ['-'] [token line [] ['-'] .minus .nil] (c :: s ++ [';']) :=
    .lexeme .start hminus (Piece.longest_minus c _)
  have hcuts := Cuts.lexeme hsign h (h.longest_semicolon hc [])
  obtain ⟨tokens, hscan, hprogram⟩ := program_expression hcuts
    (.of_unary (.prefixed (.inl rfl) (.unary (.payload (.inl rfl)))))
  exact ⟨tokens, _, hscan, hprogram, fun _ => rfl⟩

/-- The value of the text of a decimal number is the float of that. -/
theorem Decimal.evaluates_text (d : Decimal) :
    Evaluates (String.ofList d.text) (.number d.toFloat) := by
  obtain ⟨c, s, u, htext, hc, -, hdenotes, -, hnegative, hmagnitude⟩ := d.exists_text
  rw [htext, Decimal.toFloat_eq, ← hmagnitude]
  have hu : u.toFloat = Rounding.near u.magnitude := by
    rw [u.toFloat_eq, hnegative, if_neg Bool.false_ne_true]
  rw [← hu]
  cases d.negative with
  | false => exact evaluates_numeral hdenotes hc
  | true => exact evaluates_negated hdenotes hc

/-! ### Finite floats -/

theorem isNaN_isInf_of_isFinite (hx : x.isFinite = true) : x.isNaN = false ∧ x.isInf = false := by
  rw [Float.isFinite, Float.Model.isFinite] at hx
  rw [Float.isNaN, Float.Model.isNaN, Float.isInf, Float.Model.isInf]
  cases h : x.toModel.unpack with
  | notANumber | infinity => rw [h] at hx; cases hx
  | zero | finite => exact ⟨rfl, rfl⟩

/-- The text of a finite float is that of its shortest decimal number. -/
theorem numberText_eq (hx : x.isFinite = true) :
    Value.numberText x = (Decimal.shortest x).text := by
  obtain ⟨hnan, hinf⟩ := isNaN_isInf_of_isFinite hx
  rw [Value.numberText, hnan, hinf]
  rfl

/-- A numeral without an exponent, perhaps behind a sign, that denotes a
number. -/
structure Decimal.Shows (text : List Char) (d : Decimal) : Prop where
  positional : ∃ negative numeral, Positional numeral ∧ text = signText negative ++ numeral
  denotes : ∃ d', ofText? text = some d' ∧ d'.Same d

theorem Decimal.shows_text (d : Decimal) : Decimal.Shows d.text d := by
  obtain ⟨c, s, u, htext, hc, hpositional, -, hread, -, hmagnitude⟩ := d.exists_text
  refine ⟨⟨_, _, hpositional, htext⟩, { u with negative := d.negative }, ?_, rfl, hmagnitude⟩
  rw [htext, ofText?_sign _ hc, hread]
  rfl

/-- However a number is written, with a point or with an exponent, the
text that is made of it is that of the number. -/
theorem Decimal.Written.textOf?_eq {repr : List Char} {d : Decimal} (h : Written repr d) :
    textOf? repr = some d.text := by
  rw [textOf?, h.ofText?_eq, Option.map_some]

/-- The text of a finite float is a sign and a numeral without an
exponent. However the shortest decimal number of the float is written,
with a point or with an exponent, it is read as the float, and the text
is that of the number which is written, and denotes it again. As an
expression statement the text has the float for its value. So has the
text that is made of any other numeral which is read as the float. -/
theorem numberText_readsBack (hx : x.isFinite = true) :
    (∃ negative numeral, Decimal.Positional numeral ∧
        Value.numberText x = Decimal.signText negative ++ numeral) ∧
      ((∃ repr, Decimal.Written repr (Decimal.shortest x)) ∧
        ∀ repr d, Decimal.Written repr d → d.Same (Decimal.shortest x) →
          Decimal.ofText? repr = some d ∧ d.toFloat = x ∧ Value.numberText x = d.text ∧
            Decimal.textOf? repr = some (Value.numberText x) ∧
            ∃ d', Decimal.ofText? (Value.numberText x) = some d' ∧ d'.Same d) ∧
      (∀ repr d, Decimal.Written repr d → d.toFloat = x →
        ∃ text, Decimal.textOf? repr = some text ∧ Decimal.Shows text d ∧
          Evaluates (String.ofList text) (.number x)) ∧
      Evaluates (Value.number x).text (.number x) := by
  have hshortest := Decimal.toFloat_shortest hx
  have hnumber := numberText_eq hx
  refine ⟨?_, ⟨Decimal.exists_written _, fun repr d hwritten hsame => ?_⟩,
    fun repr d hwritten hfloat => ?_, ?_⟩
  · rw [hnumber]
    exact (Decimal.shortest x).shows_text.positional
  · -- numbers of the same value have the same text, however they are written
    have htext : Value.numberText x = d.text := hnumber.trans hsame.text_eq.symm
    exact ⟨hwritten.ofText?_eq, hsame.toFloat_eq.trans hshortest, htext,
      htext ▸ hwritten.textOf?_eq, htext ▸ d.shows_text.denotes⟩
  · exact ⟨d.text, hwritten.textOf?_eq, d.shows_text, hfloat ▸ d.evaluates_text⟩
  · have hevaluates := Decimal.evaluates_text (Decimal.shortest x)
    rwa [hshortest, ← hnumber] at hevaluates

/-- The float that is written `-2.5e-10` elsewhere has a text without an
exponent, which Lox reads as the float again. -/
theorem numberText_readsBack_exponent :
    (-2.5e-10 : Float).isFinite = true ∧
      Decimal.Written "-2.5e-10".toList ⟨true, 25, -11⟩ ∧
      Decimal.Same ⟨true, 25, -11⟩ (Decimal.shortest (-2.5e-10)) ∧
      Decimal.toFloat ⟨true, 25, -11⟩ = -2.5e-10 ∧
      Decimal.textOf? "-2.5e-10".toList = some "-0.00000000025".toList ∧
      Value.numberText (-2.5e-10) = "-0.00000000025".toList ∧
      Evaluates "-0.00000000025" (.number (-2.5e-10)) := by
  have hfinite : (-2.5e-10 : Float).isFinite = true := by decide +kernel
  have hwritten : Decimal.Written "-2.5e-10".toList ⟨true, 25, -11⟩ :=
    @Decimal.Written.exponent true true '2' ['5'] ['1', '0'] rfl (List.all_eq_true.mp rfl)
      ⟨by simp, List.all_eq_true.mp rfl⟩
  have hshortest : Decimal.shortest (-2.5e-10) = ⟨true, 25, -11⟩ := by decide +kernel
  have hsame : Decimal.Same ⟨true, 25, -11⟩ (Decimal.shortest (-2.5e-10)) := by
    rw [hshortest]
    exact ⟨rfl, rfl⟩
  obtain ⟨-, ⟨-, hrepr⟩, -, hevaluates⟩ := numberText_readsBack hfinite
  obtain ⟨-, hfloat, hnumber, hmade, -⟩ := hrepr _ _ hwritten hsame
  have htext : Decimal.text ⟨true, 25, -11⟩ = "-0.00000000025".toList := by decide
  rw [hnumber, htext] at hmade
  rw [Value.text, hnumber, htext, String.ofList_toList] at hevaluates
  exact ⟨hfinite, hwritten, hsame, hfloat, hmade, hnumber.trans htext, hevaluates⟩

/-- The two zeros are not the same float, nor are their texts the same. -/
example : (-0 : Float) ≠ 0 ∧ Value.numberText (-0) = "-0".toList ∧
    Value.numberText 0 = "0".toList := by
  decide +kernel

end LoxLang
