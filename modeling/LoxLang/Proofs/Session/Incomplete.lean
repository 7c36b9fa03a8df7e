import LoxLang.Proofs.Grammar.Blocks
import LoxLang.Proofs.Session.Joining

/-!
# `LoxLang.Proofs.Session.Incomplete`: which units wait for more lines

A shell holds a unit back until it is complete, and it goes by the
braces alone. A program is balanced, so none is held back. And where a
text ends inside of a string, or its tokens end inside of a block, it
has a brace to spare in fact, so it is held back.

* `Token.surplus_of_scan`: the braces of a text do not depend on the
  line where it begins;
* `Session.isIncomplete_correct`: no program is held back, and every
  text is that lacks only the rest of a string or of a block.
-/

set_option autoImplicit false

namespace LoxLang

variable {source : String} {line : Int} {tokens : List Token}

/-! ### Braces of a text -/

theorem Token.surplus_map {f : Token → Token} (hf : Token.Faithful f) (ts : List Token) :
    Token.surplus (ts.map f) = Token.surplus ts := by
  simp only [Token.surplus, List.countP_map, Function.comp_def, hf.kind]

/-- The token of the end is no brace. -/
theorem Token.surplus_of_scan (hscan : scan source line = .ok tokens) :
    Token.surplus tokens = Token.surplus (bodyOf tokens) := by
  obtain ⟨lexemes, hcuts, rfl⟩ := ((scan_iff_cuts source line).1 _).mp hscan
  have hend : Token.surplus [Lexeme.endToken line source.toList] = 0 := rfl
  rw [bodyOf_of_cuts hcuts, Token.surplus_append, hend, Int.add_zero]

/-! ### Strings without an end -/

/-- The text of a string goes up to the end of the source. -/
def LexicalFault.IsOpenString : LexicalFault → Prop
  | .openString _ _ _ => True
  | _ => False

theorem LexicalFault.isOpenString_iff (fault : LexicalFault) :
    fault.IsOpenString ↔ fault.error.cause = .lexical true := by
  cases fault <;> simp [IsOpenString, error, draft, Error.Draft.error, Error.With.withTemplate,
    Error.With.fromWithin]

/-- A string without an end has none whichever line the text begins
in. -/
theorem scan_openString {stuck : Scanner.Stuck} (line' : Int)
    (hscan : scan source line = .error stuck) (hfault : stuck.fault.IsOpenString) :
    ∃ stuck', scan source line' = .error stuck' ∧ stuck'.fault.IsOpenString := by
  obtain ⟨before, lexemes, rest, hsource, hcuts, hblocked⟩ :=
    ((scan_iff_cuts source line).2 _).mp ⟨stuck, hscan, rfl⟩
  rw [LexicalFault.isOpenString_iff] at hfault
  generalize stuck.fault.error = error at hblocked hfault
  cases hblocked with
  | stray => cases hfault
  | openString hquote =>
    have hcuts' := hcuts.shift (line' - line)
    rw [show line + (line' - line) = line' by omega] at hcuts'
    obtain ⟨stuck', hscan', herror, -⟩ := scan_of_blocked hsource hcuts' (.openString hquote)
    exact ⟨stuck', hscan', by rw [LexicalFault.isOpenString_iff, herror]⟩

/-! ### Units that are held back -/

namespace Session

theorem isIncomplete_of_openString {stuck : Scanner.Stuck} (hscan : scan source line = .error stuck)
    (hfault : stuck.fault.IsOpenString) : isIncomplete source = true := by
  obtain ⟨stuck', hscan', hfault'⟩ := scan_openString 1 hscan hfault
  rw [isIncomplete, hscan']
  cases hstuck : stuck'.fault with
  | openString => simp only [hstuck]
  | _ => rw [hstuck] at hfault'; exact hfault'.elim

theorem isIncomplete_iff_of_scan (hscan : scan source line = .ok tokens) :
    isIncomplete source = true ↔ 0 < Token.surplus (bodyOf tokens) := by
  have hscan' := scan_shift (1 - line) hscan
  rw [show line + (1 - line) = 1 by omega] at hscan'
  rw [← Token.surplus_of_scan hscan, ← Token.surplus_map (Token.faithful_shift (1 - line)),
    isIncomplete, hscan', Token.surplus]
  simp only [decide_eq_true_eq]
  omega

/-- No program is held back. A text is held back if it ends in a string.
If it is no program because its tokens end, some number of blocks is
open there, and it is held back exactly if that is not none. -/
theorem isIncomplete_correct (source : String) :
    (isIncomplete source = true → ∀ line ss, ¬ Parses source line ss) ∧
      (∀ line stuck, scan source line = .error stuck → stuck.fault.IsOpenString →
        isIncomplete source = true) ∧
      ∀ line tokens m, scan source line = .ok tokens → program tokens = .error m →
        m.found.kind = .eof →
        (∃ n, StopsWith tokens m n) ∧
          ∀ n, StopsWith tokens m n → (isIncomplete source = true ↔ 0 < n) := by
  refine ⟨?_, ?_, ?_⟩
  · rintro hincomplete line ss ⟨tokens, hscan, hprogram⟩
    -- a program closes as many braces as it opens
    have hsurplus := (isIncomplete_iff_of_scan hscan).mp hincomplete
    rw [surplus_bodyOf_of_program hprogram] at hsurplus
    exact absurd hsurplus (Int.lt_irrefl 0)
  · intro line stuck hscan hfault
    exact isIncomplete_of_openString hscan hfault
  · intro line tokens m hscan hprogram hm
    refine ⟨program_eq_error_iff.mp hprogram, fun n hstops => ?_⟩
    rw [isIncomplete_iff_of_scan hscan, hstops.surplus_bodyOf hm]
    exact Int.natCast_pos

/-- The text `{` is no program, but one that waits for the rest of its
block, and the text `"` waits for the rest of its string. -/
theorem isIncomplete_correct_open :
    (isIncomplete "\x7b" = true ∧ ∀ line ss, ¬ Parses "\x7b" line ss) ∧
      (∃ stuck, scan "\"" 1 = .error stuck ∧ stuck.fault.IsOpenString ∧
        isIncomplete "\"" = true) ∧
      ∃ tokens m, scan "\x7b" 1 = .ok tokens ∧ program tokens = .error m ∧
        m.found.kind = .eof ∧ StopsWith tokens m 1 ∧
        (isIncomplete "\x7b" = true ↔ 0 < 1) := by
  have hopen : isIncomplete "\x7b" = true := by decide +kernel
  have hquote : "\"".toList = [] ++ ['"'] := rfl
  have hblocked : Blocked 1 [] ['"'] _ := .openString List.not_mem_nil
  obtain ⟨stuck, hstring, herror, -⟩ := scan_of_blocked hquote .start hblocked
  have hfault : stuck.fault.IsOpenString := by
    rw [LexicalFault.isOpenString_iff, herror]
  have hkinds : (scan "\x7b" 1).toOption.map (List.map Token.kind) =
      some [.leftBrace, .eof] := by decide +kernel
  obtain ⟨tokens, hscan, hkinds⟩ := exists_scan_of_toOption hkinds
  obtain ⟨brace, _, rfl, hbrace, htail⟩ := List.map_eq_cons_iff.mp hkinds
  obtain ⟨eof, _, rfl, heof, htail⟩ := List.map_eq_cons_iff.mp htail
  obtain rfl := List.map_eq_nil_iff.mp htail
  have hnotEof : ∀ t ∈ [brace], t.kind ≠ .eof := by simp [hbrace]
  have hbody : bodyOf [brace, eof] = [brace] := bodyOf_append hnotEof heof
  have hstops : StopsWith [brace, eof] ⟨eof, "'\x7d' after block"⟩ 1 := by
    refine ⟨.missing "'\x7d' after block" [], ?_, ?_⟩
    · rw [hbody]
      exact .first (.block hbrace (.closing rfl))
    · have hend : endOf [brace, eof] = eof := by simp [endOf, hbrace, heof]
      rw [hend]
      rfl
  have hprogram := program_eq_error_iff.mpr ⟨1, hstops⟩
  exact ⟨⟨hopen, (isIncomplete_correct "\x7b").1 hopen⟩,
    ⟨stuck, hstring, hfault, (isIncomplete_correct "\"").2.1 1 stuck hstring hfault⟩,
    _, _, hscan, hprogram, heof, hstops,
    ((isIncomplete_correct "\x7b").2.2 1 _ _ hscan hprogram heof).2 1 hstops⟩

end Session

end LoxLang
