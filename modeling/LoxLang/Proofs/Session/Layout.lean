import LoxLang.Proofs.Execution.Agreement
import LoxLang.Proofs.Execution.Placement
import LoxLang.Proofs.Session.Histories

/-!
# `LoxLang.Proofs.Session.Layout`: layout does not matter

A unit may be set out anew, with other blanks and comments between its
lexemes. It then has the same tokens in other places, so that the same
trees are read from it, or reading stops at the same token. What the
trees do depends on no place, and on nothing of a session but its
globals.

* `Session.SameGlobals`: two sessions with the same globals;
* `Session.RanAlike`: two units have done the same there;
* `Session.run_laid`: a unit that is set out anew.
-/

set_option autoImplicit false

namespace LoxLang

/-- At the globals a chain has no other scope. -/
theorem Chain.scopes_of_outer {c : Chain} (h : c.outer = []) : c.scopes = [c.globals] := by
  rw [Chain.scopes, Chain.globals, h]
  rfl

namespace Session

variable {rounds : Nat} {source text : String} {tokens tokens' : List Token} {s s' : Session}

/-! ### Units that do the same -/

/-- Two sessions between their units, with the same globals. -/
structure SameGlobals (s s' : Session) : Prop where
  outer : s.machine.chain.outer = []
  outer' : s'.machine.chain.outer = []
  globals : ∀ name : String, s.machine.chain.globals[name]? = s'.machine.chain.globals[name]?

/-- Two units end alike: well, with the same expected at the same token,
or with the same fault at the same token, the place of it apart. The
error for a fault has the same message and snippets. -/
inductive EndedAlike : Except Failure Unit → Except Failure Unit → Prop where
  | ok : EndedAlike (.ok ()) (.ok ())
  | grammar {m m' : Misplaced} (hexpected : m.expected = m'.expected)
      (hfound : m.found.bare = m'.found.bare) :
      EndedAlike (.error (.grammar m)) (.error (.grammar m'))
  | execution {fault fault' : Fault}
      (hfault : fault.mapTokens Token.bare = fault'.mapTokens Token.bare)
      (hmessage : fault.error.message = fault'.error.message)
      (hsnippets : fault.error.snippets = fault'.error.snippets) :
      EndedAlike (.error (.execution fault)) (.error (.execution fault'))

/-- Two units, each run from a session, have ended alike, have printed
the same text, and have left the same globals. -/
structure RanAlike (s s' : Session) (r r' : Except Failure Unit × Session) : Prop where
  result : EndedAlike r.1 r'.1
  printed : ∃ shown, r.2.machine.printed = s.machine.printed ++ shown ∧
    r'.2.machine.printed = s'.machine.printed ++ shown
  globals : SameGlobals r.2 r'.2

/-! ### Sessions with the same globals -/

/-- The chains agree, since they have no scopes but the globals. -/
theorem SameGlobals.agreeOn (h : SameGlobals s s') :
    s.machine.chain.AgreeOn Set.univ s'.machine.chain := by
  rw [Chain.AgreeOn, Chain.scopes_of_outer h.outer, Chain.scopes_of_outer h.outer']
  exact .cons (fun name _ => h.globals name) .nil

theorem sameGlobals_of_agreeOn (houter : s.machine.chain.outer = [])
    (houter' : s'.machine.chain.outer = [])
    (h : s.machine.chain.AgreeOn Set.univ s'.machine.chain) : SameGlobals s s' := by
  rw [Chain.AgreeOn, Chain.scopes_of_outer houter, Chain.scopes_of_outer houter'] at h
  obtain _ | ⟨hglobals, -⟩ := h
  exact ⟨houter, houter', fun name => hglobals name (Set.mem_univ name)⟩

/-! ### Running tokens in other places -/

theorem EndedAlike.of_bare {x y : Except Fault Unit}
    (h : x.mapError (Fault.mapTokens Token.bare) = y.mapError (Fault.mapTokens Token.bare)) :
    EndedAlike (x.mapError .execution) (y.mapError .execution) := by
  cases x with
  | ok =>
    cases y with
    | ok => exact .ok
    | error => cases h
  | error fault =>
    cases y with
    | ok => cases h
    | error fault' =>
      have hfault : fault.mapTokens Token.bare = fault'.mapTokens Token.bare := Except.error.inj h
      have herror := Fault.error_relocated Token.relocates_bare fault
      have herror' := Fault.error_relocated Token.relocates_bare fault'
      rw [hfault] at herror
      have htemplate := herror.1.symm.trans herror'.1
      have hsnippets := herror.2.symm.trans herror'.2
      exact .execution hfault (by rw [Error.message, Error.message, htemplate, hsnippets]) hsnippets

/-- Statements that are the same but for the places of their tokens do
the same in sessions with the same globals. -/
theorem ranAlike_of_parses {ss ss' : List Stmt} (hparses : Parses source s.nextLine ss)
    (hparses' : Parses text s'.nextLine ss')
    (htrees : Stmt.mapAllTokens Token.bare ss = Stmt.mapAllTokens Token.bare ss')
    (h : SameGlobals s s') (rounds : Nat) :
    RanAlike s s' ((run rounds source).run.run s) ((run rounds text).run.run s') := by
  have hended := run_ended rounds source s
  have hended' := run_ended rounds text s'
  obtain ⟨hresult, hmachine⟩ := hended.of_parses hparses
  obtain ⟨hresult', hmachine'⟩ := hended'.of_parses hparses'
  -- the one machine and the other, and then the one tree and the other
  have hstart : Machine.Agree Set.univ s.machine s'.machine s.machine s'.machine :=
    ⟨h.agreeOn, "", by simp, by simp⟩
  have hmatches : Matches (Machine.Agree Set.univ s.machine s'.machine) (execAll rounds ss)
      (execAll rounds ss) :=
    execAll_matches Machine.preserves_agree ss fun _ _ => Set.mem_univ _
  obtain ⟨hsame, hagree⟩ := hmatches _ _ hstart
  obtain ⟨hfault, hmachines⟩ := execAll_of_bare htrees rounds s'.machine
  rw [← hsame] at hfault
  rw [hmachines] at hagree
  refine ⟨?_, ?_, ?_⟩
  · rw [hresult, hresult']
    exact .of_bare hfault
  · rw [hmachine, hmachine']
    exact hagree.printed
  · refine sameGlobals_of_agreeOn (hended.keeps_globals h.outer).1
      (hended'.keeps_globals h.outer').1 ?_
    rw [hmachine, hmachine']
    exact hagree.chain

/-- Units with the same tokens in other places do the same in sessions
with the same globals. -/
theorem ranAlike_of_bare (hscan : scan source s.nextLine = .ok tokens)
    (hscan' : scan text s'.nextLine = .ok tokens')
    (hbare : tokens'.map Token.bare = tokens.map Token.bare) (h : SameGlobals s s')
    (rounds : Nat) :
    RanAlike s s' ((run rounds source).run.run s) ((run rounds text).run.run s') := by
  cases parsedAlike_of_bare (endsWithEnd_of_scan hscan).exists_mem hbare with
  | ok hprogram hprogram' htrees =>
    exact ranAlike_of_parses ⟨_, hscan, hprogram⟩ ⟨_, hscan', hprogram'⟩ htrees h rounds
  | error hprogram hprogram' i hi hi' hexpected =>
    obtain ⟨hresult, hmachine⟩ := (run_ended rounds source s).of_misplaced hscan hprogram
    obtain ⟨hresult', hmachine'⟩ := (run_ended rounds text s').of_misplaced hscan' hprogram'
    -- the two lists are refused at the same index, where their tokens are the same
    have hfound := congrArg (·[i]?) hbare
    simp only [List.getElem?_map, hi, hi', Option.map_some, Option.some.injEq] at hfound
    refine ⟨?_, ⟨"", ?_, ?_⟩, ?_⟩
    · rw [hresult, hresult']
      exact .grammar hexpected hfound.symm
    · rw [hmachine, String.append_empty]
    · rw [hmachine', String.append_empty]
    · refine sameGlobals_of_agreeOn (hmachine ▸ h.outer) (hmachine' ▸ h.outer') ?_
      rw [hmachine, hmachine']
      exact h.agreeOn

/-! ### Units that are set out anew -/

/-- A text that is made of the lexemes of another one, with a separator
between any two, has the same tokens in other places. It is parsed
alike, and run from sessions with the same globals the two do the
same. -/
theorem run_laid {line : Int} (hscan : scan source line = .ok tokens)
    (hlaid : Laid ((bodyOf tokens).map Token.lexeme) text.toList) :
    (∀ line', ∃ tokens', scan text line' = .ok tokens' ∧
      tokens'.map Token.bare = tokens.map Token.bare ∧ ParsedAlike tokens tokens') ∧
    ∀ rounds s s', SameGlobals s s' →
      RanAlike s s' ((run rounds source).run.run s) ((run rounds text).run.run s') := by
  constructor
  · intro line'
    obtain ⟨tokens', hscan', hbare⟩ := scan_laid hscan hlaid line'
    exact ⟨tokens', hscan', hbare, parsedAlike_of_bare (endsWithEnd_of_scan hscan).exists_mem hbare⟩
  · intro rounds s s' h
    have hshift := scan_shift (s.nextLine - line) hscan
    rw [show line + (s.nextLine - line) = s.nextLine by omega] at hshift
    obtain ⟨tokens', hscan', hbare⟩ := scan_laid hscan hlaid s'.nextLine
    refine ranAlike_of_bare hshift hscan' ?_ h rounds
    rw [hbare, List.map_map]
    rfl

/-- The unit `print"a";-"a";` on two lines with a comment does the same,
in whichever line it begins: it prints a line, and then stops. -/
theorem run_laid_comment :
    let source := "print\"a\";-\"a\";"
    let text := "print \"a\"\t; // a;\n\r//\n- \"a\"\n;"
    let s := fresh false false
    let s' := { s with nextLine := 7 }
    ∃ tokens, scan source 1 = .ok tokens ∧
      Laid ((bodyOf tokens).map Token.lexeme) text.toList ∧ SameGlobals s s' ∧
      (∃ tokens', scan text 7 = .ok tokens' ∧
        tokens'.map Token.bare = tokens.map Token.bare ∧ ParsedAlike tokens tokens') ∧
      RanAlike s s' ((run 1 source).run.run s) ((run 1 text).run.run s') ∧
      ((run 1 text).run.run s').2.machine.printed = "a\n" := by
  intro source text s s'
  have hlexemes : (scan source 1).toOption.map (fun tokens => (bodyOf tokens).map Token.lexeme) =
      some ["print", "\"a\"", ";", "-", "\"a\"", ";"] := by decide +kernel
  obtain ⟨tokens, hscan, hbody⟩ := exists_scan_of_toOption hlexemes
  have hblank {c : Char} (hc : c ∈ Piece.blanks) : IsSeparator [c] := .intro hc .nil
  have hcomment : IsSeparator " // a;\n\r//\n".toList :=
    .intro (by decide) (@IsLayout.comment " a;".toList _ (by decide)
      (.blank (by decide) (@IsLayout.comment [] _ (by decide) .nil)))
  have hlaid : Laid ((bodyOf tokens).map Token.lexeme) text.toList := by
    have hmade := Laid.cons "print" (hblank (c := ' ') (by decide)) <|
      .cons "\"a\"" (hblank (c := '\t') (by decide)) <| .cons ";" hcomment <|
      .cons "-" (hblank (c := ' ') (by decide)) <| .cons "\"a\"" (hblank (c := '\n') (by decide)) <|
      .single ";"
    rw [hbody]
    convert hmade using 1
    decide +kernel
  have hglobals : SameGlobals s s' := ⟨rfl, rfl, fun _ => rfl⟩
  obtain ⟨hparsed, hran⟩ := run_laid hscan hlaid
  exact ⟨tokens, hscan, hlaid, hglobals, hparsed 7, hran 1 s s' hglobals, by decide +kernel⟩

end Session

end LoxLang
