import LoxLang.Proofs.Execution.Agreement

/-!
# `LoxLang.Proofs.Execution.Shadowing`: a declared variable hides those outside

A block that begins with the declaration of a variable has one of its
own under that name for as long as it runs. Whatever its statements read
or assign under the name, in inner blocks and in loops too, is this
variable or one still further in. The variables of that name further
out are left as the initial value left them, and it makes no difference
to the block what they are.

The invariant compares two runs of the statements. Both chains have the
same bindings up to a scope that binds the name, and behind it the same
bindings of all other names, while each chain keeps its own bindings of
the name (`Scope.Shadowed`). It is preserved because no name is looked
for behind a scope that binds it.

* `Chain.preserves_shadowed`, `Machine.preserves_shadowed`: reading,
  assigning, binding, and entering and leaving scopes preserve it;
* `execAll_shadowed`: so do statements;
* `exec_shadowed`: what follows for the block.
-/

set_option autoImplicit false

namespace LoxLang

variable {name : String} {outer outer' : List Scope} {k : Nat}

/-! ### Scopes -/

/-- Scopes that are the same up to one that binds a name, of which there
are `k` in front, and that agree behind it on all other names. On the
name itself, those behind it agree with the given ones. -/
inductive Scope.Shadowed (name : String) (outer outer' : List Scope) :
    Nat → List Scope → List Scope → Prop
  | here {s t : Scope} {ss ts : List Scope} (hname : name ∈ s)
      (hscope : s.AgreeOn Set.univ t) (hrest : AllAgreeOn {name}ᶜ ss ts)
      (hss : AllAgreeOn {name} outer ss) (hts : AllAgreeOn {name} outer' ts) :
      Shadowed name outer outer' 0 (s :: ss) (t :: ts)
  | inside {k : Nat} {s t : Scope} {ss ts : List Scope} (hscope : s.AgreeOn Set.univ t)
      (hrest : Shadowed name outer outer' k ss ts) :
      Shadowed name outer outer' (k + 1) (s :: ss) (t :: ts)

namespace Scope.Shadowed

variable {s t : Scope} {ss ts : List Scope}

/-- A name is found in both or in neither, with the same value. -/
theorem findSome? (h : Shadowed name outer outer' k ss ts) (other : String) :
    ss.findSome? (·[other]?) = ts.findSome? (·[other]?) := by
  induction h with
  | @here s t ss ts hname hscope hrest =>
    rw [List.findSome?_cons, List.findSome?_cons, ← hscope other trivial]
    by_cases hother : other = name
    · -- the name is found here, and what is behind is not looked at
      subst hother
      rw [Std.TreeMap.getElem?_eq_some_getElem hname]
    · rw [hrest.findSome? hother]
  | inside hscope _ ih =>
    rw [List.findSome?_cons, List.findSome?_cons, ← hscope other trivial, ih]

/-- A name is rebound in both or in neither, and then in the same
place. -/
theorem rebind? (h : Shadowed name outer outer' k ss ts) (other : String) (v : Value) :
    Option.Rel (Shadowed name outer outer' k) (Chain.rebind? other v ss)
      (Chain.rebind? other v ts) := by
  induction h with
  | @here s t ss ts hname hscope hrest hss hts =>
    rw [Chain.rebind?, Chain.rebind?]
    by_cases hmem : other ∈ s
    · rw [if_pos hmem, if_pos ((hscope.mem_iff trivial).mp hmem)]
      have hname' : name ∈ s.insert other v := Scope.mem_insert.mpr (.inr hname)
      exact .some (.here hname' (hscope.insert other v) hrest hss hts)
    · rw [if_neg hmem, if_neg (mt (hscope.mem_iff trivial).mpr hmem)]
      -- it is some other name, and binding that leaves the bindings of the name alone
      have hother : other ∉ ({name} : Set String) := by
        rintro rfl
        exact hmem hname
      have hkept {us us' : List Scope} (hus : Chain.rebind? other v us = some us') :
          AllAgreeOn {name} us us' :=
        Chain.forall₂_of_rebind? .refl (fun s _ => .insert_of_notMem hother s v) hus
      have hrebind := hrest.rebind? hother v
      cases hx : Chain.rebind? other v ss <;> cases hy : Chain.rebind? other v ts <;>
        rw [hx, hy] at hrebind <;> cases hrebind
      · exact .none
      · next hrest' =>
        have hss' := Scope.forall₂_trans .trans hss (hkept hx)
        have hts' := Scope.forall₂_trans .trans hts (hkept hy)
        exact .some (.here hname hscope hrest' hss' hts')
  | @inside k s t ss ts hscope hrest ih =>
    rw [Chain.rebind?, Chain.rebind?]
    by_cases hmem : other ∈ s
    · rw [if_pos hmem, if_pos ((hscope.mem_iff trivial).mp hmem)]
      exact .some (.inside (hscope.insert other v) hrest)
    · rw [if_neg hmem, if_neg (mt (hscope.mem_iff trivial).mpr hmem)]
      generalize Chain.rebind? other v ss = x, Chain.rebind? other v ts = y at ih
      cases ih with
      | none => exact .none
      | some h => exact .some (.inside hscope h)

/-- A name is bound in the innermost scope of both. -/
theorem insert (h : Shadowed name outer outer' k (s :: ss) (t :: ts)) (other : String)
    (v : Value) :
    Shadowed name outer outer' k (s.insert other v :: ss) (t.insert other v :: ts) := by
  cases h with
  | here hname hscope hrest hss hts =>
    exact .here (Scope.mem_insert.mpr (.inr hname)) (hscope.insert other v) hrest hss hts
  | inside hscope hrest => exact .inside (hscope.insert other v) hrest

/-- All scopes agree on the other names. -/
theorem agreeOn (h : Shadowed name outer outer' k ss ts) : AllAgreeOn {name}ᶜ ss ts := by
  induction h with
  | here _ hscope hrest => exact .cons (fun other _ => hscope other trivial) hrest
  | inside hscope _ ih => exact .cons (fun other _ => hscope other trivial) ih

end Scope.Shadowed

/-! ### Chains -/

/-- Chains of which the scopes are the same up to one that binds a
name. -/
def Chain.Shadowed (name : String) (outer outer' : List Scope) (k : Nat) (c d : Chain) : Prop :=
  Scope.Shadowed name outer outer' k c.scopes d.scopes

theorem Chain.preserves_shadowed (name : String) (outer outer' : List Scope) (k : Nat) :
    Chain.Preserves Set.univ (Chain.Shadowed name outer outer' k) :=
  .of_scopes (fun _ h => h.findSome? _) fun v _ h => h.rebind? _ v

namespace Chain.Shadowed

variable {c d : Chain}

theorem define (h : c.Shadowed name outer outer' k d) (other : String) (v : Value) :
    (c.define other v).Shadowed name outer outer' k (d.define other v) :=
  h.insert other v

theorem enter (h : c.Shadowed name outer outer' k d) :
    c.enter.Shadowed name outer outer' (k + 1) d.enter :=
  .inside (.refl ∅) h

/-- Leaving a scope that is further in than the one with the name. -/
theorem leave (h : c.Shadowed name outer outer' (k + 1) d) :
    c.leave.Shadowed name outer outer' k d.leave := by
  obtain ⟨s, ss⟩ := c
  obtain ⟨t, ts⟩ := d
  cases h with
  | inside _ hrest =>
    cases hrest with
    | here hname hscope hrest hss hts => exact .here hname hscope hrest hss hts
    | inside hscope hrest => exact .inside hscope hrest

/-- The scopes around the one with the name. -/
theorem around (h : c.Shadowed name outer outer' 0 d) :
    Scope.AllAgreeOn {name} outer c.outer ∧ Scope.AllAgreeOn {name} outer' d.outer := by
  cases h with
  | here _ _ _ hss hts => exact ⟨hss, hts⟩

end Chain.Shadowed

/-! ### Statements -/

/-- From two machines on, others have been come to, where the scopes are
the same up to one that binds a name. The same text has been printed. -/
structure Machine.Shadowed (name : String) (outer outer' : List Scope) (m₀ n₀ : Machine) (k : Nat)
    (m n : Machine) : Prop where
  chain : m.chain.Shadowed name outer outer' k n.chain
  agree : Machine.Agree {name}ᶜ m₀ n₀ m n

theorem Machine.preserves_shadowed (name : String) (outer outer' : List Scope) (m₀ n₀ : Machine) :
    Machine.PreservesWithin Set.univ (Machine.Shadowed name outer outer' m₀ n₀) where
  evaluate {k} e he m n h := by
    obtain ⟨hvalue, hchain⟩ := eval_matches (Chain.preserves_shadowed name outer outer' k) e he
      m.chain n.chain h.chain
    exact ⟨hvalue, hchain, hchain.agreeOn, h.agree.printed⟩
  print text _ _ h := ⟨h.chain, h.agree.print text⟩
  define {_ other} v _ _ _ h := by
    have hchain := h.chain.define other v
    exact ⟨hchain, hchain.agreeOn, h.agree.printed⟩
  inScope {k body} hbody m n h := by
    have henter : m.enter.chain.Shadowed name outer outer' (k + 1) n.enter.chain := by
      rw [Machine.chain_enter, Machine.chain_enter]
      exact h.chain.enter
    obtain ⟨hresult, hchain, hagree⟩ := hbody _ _ ⟨henter, h.agree.enter⟩
    rw [run_inScope, run_inScope]
    refine ⟨hresult, ?_, hagree.leave m.place n.place⟩
    rw [Machine.chain_leave, Machine.chain_leave]
    exact hchain.leave

/-- Statements end alike where the innermost scopes are the same and
bind a name, whatever is bound to the name further out. They keep what
is bound to it there. -/
theorem execAll_shadowed (rounds : Nat) (ss : List Stmt) {m n : Machine}
    (hname : name ∈ m.chain.scope) (hscope : m.chain.scope.AgreeOn Set.univ n.chain.scope)
    (houter : Scope.AllAgreeOn {name}ᶜ m.chain.outer n.chain.outer) :
    let r := (execAll rounds ss).run.run m
    let q := (execAll rounds ss).run.run n
    r.1 = q.1 ∧ Machine.Agree {name}ᶜ m n r.2 q.2 ∧
      Scope.AllAgreeOn {name} m.chain.outer r.2.chain.outer ∧
      Scope.AllAgreeOn {name} n.chain.outer q.2.chain.outer := by
  have hchain : m.chain.Shadowed name m.chain.outer n.chain.outer 0 n.chain :=
    .here hname hscope houter (.refl _) (.refl _)
  have hstart : Machine.Shadowed name m.chain.outer n.chain.outer m n 0 m n :=
    ⟨hchain, hchain.agreeOn, "", by simp, by simp⟩
  obtain ⟨hresult, hend⟩ := execAll_matches_within (Machine.preserves_shadowed name _ _ m n) 0 ss
    (fun _ _ => Set.mem_univ _) m n hstart
  obtain ⟨hm, hn⟩ := hend.chain.around
  exact ⟨hresult, hend.agree, hm, hn⟩

/-! ### Blocks -/

/-- A block that begins with a declaration evaluates the initial value in
a new scope, binds it there, and goes on with the other statements. -/
theorem run_block_var (rounds : Nat) (x : Token) (e : Expr) (ss : List Stmt) (m : Machine) :
    (exec rounds (.block (.var x e :: ss))).run.run m =
      match (evaluate e).run.run m.enter with
      | (.error fault, n) => (.error fault, n.leave m.place)
      | (.ok v, n) =>
        let q := (execAll rounds ss).run.run (n.define x.lexeme v)
        (q.1, q.2.leave m.place) := by
  rw [exec, run_inScope, execAll, exec, run_bind, run_bind]
  rcases (evaluate e).run.run m.enter with ⟨_ | v, n⟩ <;> rfl

/-- There are scopes around one that was entered, however the evaluation
of an expression in it ends. -/
theorem outer_ne_nil_of_evaluate (e : Expr) (m : Machine) :
    ((evaluate e).run.run m.enter).2.chain.outer ≠ [] := by
  have hkeeps := (@eval_keeps [] e m.enter.chain).outer
  rw [Machine.chain_enter] at hkeeps
  intro hnil
  rw [run_evaluate, Machine.chain_enter] at hnil
  rw [hnil] at hkeeps
  cases hkeeps

/-- Scopes that agree around the innermost ones agree when those are
left. -/
theorem Chain.agreeOn_leave {names : Set String} {c d : Chain} (hc : c.outer ≠ [])
    (h : Scope.AllAgreeOn names c.outer d.outer) : c.leave.AgreeOn names d.leave := by
  rw [Chain.leave, Chain.leave]
  generalize c.outer = ss, d.outer = ts at hc h
  cases h with
  | nil => exact (hc rfl).elim
  | cons hs hrest => exact .cons hs hrest

/-- The machine with other scopes around the innermost one. -/
def Machine.withOuter (outer : List Scope) (m : Machine) : Machine :=
  { m with chain := { m.chain with outer } }

/-- However a block ends that begins with the declaration of a variable,
the variables of that name in the scopes around it are as the evaluation
of the initial value in a new scope leaves them. If that gives a value,
the other statements of the block do the same whatever those variables
are, bound or not: the block ends alike, prints the same, and leaves the
same in all other variables, and those of the name stay what they
are. -/
theorem exec_shadowed (rounds : Nat) (x : Token) (e : Expr) (ss : List Stmt) (m : Machine) :
    let alone := (evaluate e).run.run m.enter
    let r := (exec rounds (.block (.var x e :: ss))).run.run m
    alone.2.chain.leave.AgreeOn {x.lexeme} r.2.chain ∧
      ∀ v, alone.1 = .ok v →
        ∀ outer, Scope.AllAgreeOn {x.lexeme}ᶜ alone.2.chain.outer outer →
          let q := (execAll rounds ss).run.run ((alone.2.define x.lexeme v).withOuter outer)
          r.1 = q.1 ∧ r.2.printed = q.2.printed ∧
            r.2.chain.AgreeOn {x.lexeme}ᶜ q.2.chain.leave ∧
            Scope.AllAgreeOn {x.lexeme} outer q.2.chain.outer := by
  have hne := outer_ne_nil_of_evaluate e m
  rw [run_block_var]
  generalize (evaluate e).run.run m.enter = alone at hne ⊢
  obtain ⟨fault | v, n⟩ := alone
  · -- there is no value, and the block ends here
    refine ⟨?_, fun v hv => nomatch hv⟩
    rw [Machine.chain_leave]
    exact .refl _
  · have hname : x.lexeme ∈ (n.define x.lexeme v).chain.scope := Std.TreeMap.mem_insert_self
    constructor
    · -- a run of the statements is compared with itself
      obtain ⟨-, -, hkept, -⟩ := execAll_shadowed rounds ss hname (.refl _) (.refl _)
      rw [Machine.chain_leave]
      exact Chain.agreeOn_leave hne hkept
    · rintro _ ⟨⟩ outer houter
      obtain ⟨hresult, hagree, -, hkept⟩ := execAll_shadowed rounds ss
        (n := (n.define x.lexeme v).withOuter outer) hname (.refl _) houter
      obtain ⟨hchain, text, hr, hq⟩ := hagree
      refine ⟨hresult, ?_, ?_, hkept⟩
      · rw [Machine.printed_leave, hr, hq]
        rfl
      · rw [Machine.chain_leave]
        exact hchain.leave

/-- The block `{ var a = true; { a = nil; } }` does the same whether or
not there is another `a` outside, and leaves that alone. -/
theorem exec_shadowed_assigned :
    let a : Token := { kind := .identifier, lexeme := "a", line := 1 }
    let e : Expr := .literal (.bool true)
    let ss : List Stmt := [.block [.expression (.assign a (.literal .nil))]]
    let alone := (evaluate e).run.run (Machine.enter {})
    let outer : List Scope := [Std.TreeMap.insert ∅ "a" (.string "outside")]
    let q := (execAll 1 ss).run.run ((alone.2.define "a" (.bool true)).withOuter outer)
    alone.1 = .ok (.bool true) ∧ Scope.AllAgreeOn {"a"}ᶜ alone.2.chain.outer outer ∧
      ((exec 1 (.block (.var a e :: ss))).run.run {}).1 = q.1 ∧
      Scope.AllAgreeOn {"a"} outer q.2.chain.outer := by
  intro a e ss alone outer q
  have ha : "a" ∉ ({"a"}ᶜ : Set String) := fun h => h rfl
  have houter : Scope.AllAgreeOn {"a"}ᶜ alone.2.chain.outer outer :=
    .cons (.insert_of_notMem ha ∅ _) .nil
  obtain ⟨-, hrest⟩ := exec_shadowed 1 a e ss {}
  obtain ⟨hresult, -, -, hkept⟩ := hrest _ rfl outer houter
  exact ⟨rfl, houter, hresult, hkept⟩

end LoxLang
