import LoxLang.Proofs.Execution.EmptyScopes

/-!
# `LoxLang.Proofs.Execution.BareBlocks`: a block that declares nothing

The braces around statements that declare nothing of their own can be
left out. While the statements run, the scope of the block stays empty,
and what they do with that scope in the chain is what they do without
it, in inner blocks and in loops, and up to any fault.

The invariant compares the two runs. One chain is the other one with one
more scope that binds no name, behind the scopes that have been entered
in the meantime (`Machine.Padded`). Only a declaration outside of inner
blocks could bind a name in that scope, and there is none.

* `Machine.preserves_padded`: the operations of a machine preserve this,
  if no name is bound in the scope of the block itself;
* `execAll_matches_padded`: so do statements that declare nothing;
* `exec_block_undeclared`: what follows for the block, and for an
  expression in a new scope.
-/

set_option autoImplicit false

namespace LoxLang

/-! ### Chains -/

namespace Chain.Padded

variable {k : Nat} {c d : Chain}

/-- A new scope is empty. -/
theorem ofEnter (c : Chain) : c.enter.Padded 0 c :=
  .here fun _ => Std.TreeMap.not_mem_emptyc

/-- The scope that is one more has no names. -/
theorem notMem (h : c.Padded 0 d) (name : String) : name ∉ c.scope := by
  obtain ⟨scope, outer⟩ := c
  obtain ⟨s, ss⟩ := d
  cases h with
  | here hempty => exact hempty name

theorem define (h : c.Padded (k + 1) d) (name : String) (v : Value) :
    (c.define name v).Padded (k + 1) (d.define name v) := by
  obtain ⟨scope, outer⟩ := c
  obtain ⟨s, ss⟩ := d
  cases h with
  | behind _ hrest => exact .behind _ hrest

theorem enter (h : c.Padded k d) : c.enter.Padded (k + 1) d.enter :=
  .behind ∅ h

/-- Leaving a scope that is further in than the one that is one more. -/
theorem leave (h : c.Padded (k + 1) d) : c.leave.Padded k d.leave := by
  obtain ⟨scope, outer⟩ := c
  obtain ⟨s, ss⟩ := d
  cases h with
  | behind _ hrest =>
    cases hrest with
    | here hempty => exact .here hempty
    | behind _ hrest => exact .behind _ hrest

end Chain.Padded

/-! ### Machines -/

/-- The scopes of a machine are those of another one with one more, which
binds no name. The same text has been printed. -/
structure Machine.Padded (k : Nat) (m n : Machine) : Prop where
  chain : m.chain.Padded k n.chain
  printed : m.printed = n.printed

/-- The names that may be bound in the innermost scope: none in the scope
that is one more, and any in those that have been entered since. -/
def Machine.bindable : Nat → Set String
  | 0 => ∅
  | _ + 1 => Set.univ

theorem Machine.preserves_padded :
    Machine.PreservesBinding Set.univ Machine.bindable Machine.Padded where
  evaluate {k} e he m n h := by
    obtain ⟨hvalue, hchain⟩ := eval_matches_padded k e m.chain n.chain h.chain
    exact ⟨hvalue, hchain, h.printed⟩
  print text m n h := ⟨h.chain, by rw [Machine.print, Machine.print, h.printed]⟩
  define {k name} v m n hname h := by
    cases k with
    -- the innermost scope is the one that is more, where nothing may be bound
    | zero => exact absurd hname (Set.notMem_empty name)
    | succ k => exact ⟨h.chain.define name v, h.printed⟩
  inScope {k body} hbody m n h := by
    have henter : m.enter.Padded (k + 1) n.enter := by
      refine ⟨?_, by rw [Machine.printed_enter, Machine.printed_enter, h.printed]⟩
      rw [Machine.chain_enter, Machine.chain_enter]
      exact h.chain.enter
    obtain ⟨hresult, hchain, hprinted⟩ := hbody _ _ henter
    rw [run_inScope, run_inScope]
    refine ⟨hresult, ?_, by rw [Machine.printed_leave, Machine.printed_leave, hprinted]⟩
    rw [Machine.chain_leave, Machine.chain_leave]
    exact hchain.leave
  entered _ := Set.Subset.rfl

/-- Statements that declare nothing do the same with one more scope, in
which no name is bound. -/
theorem execAll_matches_padded (rounds : Nat) {ss : List Stmt}
    (h : ss.flatMap Stmt.declared = []) :
    Matches (Machine.Padded 0) (execAll rounds ss) (execAll rounds ss) := by
  have hdeclared : ∀ x ∈ ss.flatMap Stmt.declared, x ∈ Machine.bindable 0 := by simp [h]
  exact execAll_matches_binding Machine.preserves_padded 0 ss (fun _ _ => Set.mem_univ _) hdeclared

/-! ### Blocks -/

/-- A block of statements that declare nothing outside of inner blocks
does what the statements do without it: both end alike, with the same
fault if there is one, have printed the same text, and leave the same
bindings in every scope. Its own scope has no names when it is left. And
any expression has the same value in a new scope as outside of it, does
the same there to all other scopes, and leaves the new scope empty. -/
theorem exec_block_undeclared (rounds : Nat) (m : Machine) :
    (∀ ss : List Stmt, ss.flatMap Stmt.declared = [] →
      let inner := (execAll rounds ss).run.run m.enter
      let block := (exec rounds (.block ss)).run.run m
      let direct := (execAll rounds ss).run.run m
      block = (inner.1, inner.2.leave m.place) ∧
        (∀ name, name ∉ inner.2.chain.scope) ∧
        block.1 = direct.1 ∧ block.2.printed = direct.2.printed ∧
        block.2.chain = direct.2.chain) ∧
      ∀ e : Expr,
        let inside := (evaluate e).run.run m.enter
        let outside := (evaluate e).run.run m
        inside.1 = outside.1 ∧ inside.2.printed = outside.2.printed ∧
          inside.2.chain.leave = outside.2.chain ∧
          ∀ name, name ∉ inside.2.chain.scope := by
  -- both parts compare a machine with the one that has entered a scope
  have henter : m.enter.Padded 0 m := by
    refine ⟨?_, Machine.printed_enter m⟩
    rw [Machine.chain_enter]
    exact .ofEnter m.chain
  constructor
  · intro ss hdeclared
    obtain ⟨hresult, hchain, hprinted⟩ := execAll_matches_padded rounds hdeclared _ _ henter
    have hblock : (exec rounds (.block ss)).run.run m =
        (((execAll rounds ss).run.run m.enter).1,
          ((execAll rounds ss).run.run m.enter).2.leave m.place) := by
      rw [exec, run_inScope]
    rw [hblock]
    refine ⟨rfl, hchain.notMem, hresult, ?_, ?_⟩
    · rw [Machine.printed_leave, hprinted]
    · rw [Machine.chain_leave, hchain.leave_eq]
  · intro e
    obtain ⟨hvalue, hchain, hprinted⟩ :=
      Machine.preserves_padded.evaluate e (fun _ _ => Set.mem_univ _) _ _ henter
    exact ⟨hvalue, hprinted, hchain.leave_eq, hchain.notMem⟩

/-- The braces around `while (a) { print a; var b = nil; a = b; } print a;`
can be left out. The loop ends, and the last statement fails. -/
theorem exec_block_undeclared_loop :
    let a : Token := { kind := .identifier, lexeme := "a", line := 1 }
    let b : Token := { kind := .identifier, lexeme := "b", line := 1 }
    let keyword : Token := { kind := .print, lexeme := "print", line := 1 }
    let ss : List Stmt :=
      [.while (.variable a)
        (.block [.print keyword (.variable a), .var b (.literal .nil),
          .expression (.assign a (.variable b))]),
       .print keyword (.variable a)]
    let m : Machine := Machine.define "a" (.bool true) {}
    let block := (exec 2 (.block ss)).run.run m
    let direct := (execAll 2 ss).run.run m
    ss.flatMap Stmt.declared = [] ∧ direct.1.isOk = false ∧ direct.2.printed = "true\n" ∧
      block.1 = direct.1 ∧ block.2.printed = direct.2.printed ∧
      block.2.chain = direct.2.chain := by
  intro a b keyword ss m block direct
  obtain ⟨-, -, hresult, hprinted, hchain⟩ := (exec_block_undeclared 2 m).1 ss rfl
  exact ⟨rfl, by decide +kernel, by decide +kernel, hresult, hprinted, hchain⟩

end LoxLang
