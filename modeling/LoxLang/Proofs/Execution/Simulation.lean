import LoxLang.Proofs.Execution.Names
import Mathlib.Data.Set.Basic

/-!
# `LoxLang.Proofs.Execution.Simulation`: computations that go alike

Two computations match under a relation on their states if, from
related states, they end with the same result and again in related
states (`Matches`). Sequences of matching parts match. So an expression
matches itself under any relation on chains that looking up and
assigning its names preserves (`eval_matches`), and a statement under any
that the operations of a machine preserve on the names that occur in it
(`exec_matches`). The relation may depend on how many scopes have been
entered, and then also say which names may be bound there
(`exec_matches_binding`). One such relation compares machines without
the events that they have noted: what a statement does depends on
nothing that was noted before.

* `Stmt.names`: the names that occur in a statement;
* `eval_matches`, `exec_matches`: what it takes for an expression or a
  statement to match itself;
* `execAll_unnoted`: noted events have no influence;
* `run_execAll_append`: statements in two parts.
-/

set_option autoImplicit false

namespace LoxLang

variable {σ τ ε α β : Type}

/-! ### Matching computations -/

/-- From related states, two computations end with the same result and in
related states. -/
def Matches (R : σ → τ → Prop) (x : ExceptT ε (StateM σ) α) (y : ExceptT ε (StateM τ) α) :
    Prop :=
  ∀ s t, R s t → (x.run.run s).1 = (y.run.run t).1 ∧ R (x.run.run s).2 (y.run.run t).2

namespace Matches

variable {R : σ → τ → Prop} {x : ExceptT ε (StateM σ) α} {y : ExceptT ε (StateM τ) α}
  {f : α → ExceptT ε (StateM σ) β} {g : α → ExceptT ε (StateM τ) β}

theorem pure (a : α) :
    Matches R (Pure.pure a : ExceptT ε (StateM σ) α) (Pure.pure a) :=
  fun _ _ h => ⟨rfl, h⟩

theorem throw (e : ε) :
    Matches R (MonadExcept.throw e : ExceptT ε (StateM σ) α) (MonadExcept.throw e) :=
  fun _ _ h => ⟨rfl, h⟩

/-- What is read from states that are related is the same. -/
theorem read {f : σ → Except ε α} {g : τ → Except ε α} (h : ∀ {s t}, R s t → f s = g t) :
    Matches R (do liftExcept (f (← get)) : ExceptT ε (StateM σ) α)
      (do liftExcept (g (← get))) := by
  intro s t hst
  simp only [run_bind, run_get, run_liftExcept]
  exact ⟨h hst, hst⟩

theorem lift (x : Except ε α) :
    Matches R (liftExcept x : ExceptT ε (StateM σ) α) (liftExcept x) := by
  intro s t hst
  rw [run_liftExcept, run_liftExcept]
  exact ⟨rfl, hst⟩

theorem update {f : σ → σ} {g : τ → τ} (h : ∀ {s t}, R s t → R (f s) (g t)) :
    Matches R (modify f : ExceptT ε (StateM σ) PUnit) (modify g) :=
  fun _ _ hst => ⟨rfl, h hst⟩

theorem bind (hx : Matches R x y) (hf : ∀ a, Matches R (f a) (g a)) :
    Matches R (x >>= f) (y >>= g) := by
  intro s t hst
  have hxy := hx s t hst
  rw [run_bind, run_bind]
  generalize x.run.run s = p, y.run.run t = q at hxy
  obtain ⟨result, s'⟩ := p
  obtain ⟨_, t'⟩ := q
  obtain ⟨rfl, hstate⟩ := hxy
  cases result with
  | error e => exact ⟨rfl, hstate⟩
  | ok a => exact hf a s' t' hstate

end Matches

/-! ### Names that occur -/

/-- The names that occur in an expression. -/
def Expr.names : Expr → List String
  | .literal _ | .alien _ => []
  | .grouping e | .unary _ e => e.names
  | .binary left _ right | .logical left _ right => left.names ++ right.names
  | .variable name => [name.lexeme]
  | .assign name e => name.lexeme :: e.names

mutual

/-- The names that occur in a statement. -/
def Stmt.names : Stmt → List String
  | .expression e | .print _ e => e.names
  | .var name e => name.lexeme :: e.names
  | .block body => Stmt.allNames body
  | .ifThen condition consequent => condition.names ++ consequent.names
  | .ifElse condition consequent alternative =>
    condition.names ++ (consequent.names ++ alternative.names)
  | .while condition body => condition.names ++ body.names
  | .alien _ => []

/-- The names that occur in some statements. -/
def Stmt.allNames : List Stmt → List String
  | [] => []
  | s :: rest => s.names ++ Stmt.allNames rest

end

/-- What a statement declares outside of its blocks occurs in it. -/
theorem Stmt.declared_subset_names : (s : Stmt) → s.declared ⊆ s.names
  | .var _ _ => by simp [declared, names]
  | .ifThen _ consequent =>
    List.subset_append_of_subset_right _ consequent.declared_subset_names
  | .ifElse _ consequent alternative =>
    List.subset_append_of_subset_right _ (List.append_subset.mpr
      ⟨List.subset_append_of_subset_left _ consequent.declared_subset_names,
        List.subset_append_of_subset_right _ alternative.declared_subset_names⟩)
  | .while _ body => List.subset_append_of_subset_right _ body.declared_subset_names
  | .expression _ | .print _ _ | .block _ | .alien _ => List.nil_subset _

theorem Stmt.allDeclared_subset_allNames (ss : List Stmt) :
    ss.flatMap Stmt.declared ⊆ Stmt.allNames ss := by
  induction ss with
  | nil => exact List.nil_subset _
  | cons s rest ih =>
    rw [List.flatMap_cons, allNames]
    exact List.append_subset.mpr
      ⟨List.subset_append_of_subset_left _ s.declared_subset_names,
        List.subset_append_of_subset_right _ ih⟩

/-! ### Expressions -/

section Expressions

variable {names : Set String} {R : Chain → Chain → Prop}

/-- Names are looked up and assigned alike in chains that are related, as
long as they are among the given ones. -/
structure Chain.Preserves (names : Set String) (R : Chain → Chain → Prop) : Prop where
  get? : ∀ {name c d}, name ∈ names → R c d → c.get? name = d.get? name
  assign? : ∀ {name} v {c d}, name ∈ names → R c d →
    Option.Rel R (c.assign? name v) (d.assign? name v)

/-- An assignment to a chain rebinds a name of its scopes. -/
theorem Chain.map_scopes_assign? (name : String) (v : Value) (c : Chain) :
    (c.assign? name v).map scopes = rebind? name v c.scopes := by
  rw [assign?, scopes, rebind?]
  split
  · rfl
  · rw [Option.map_map]
    rfl

/-- What the scopes of two chains have to do with each other is preserved
if finding and rebinding a name in a list of scopes preserves it. -/
theorem Chain.Preserves.of_scopes {R : List Scope → List Scope → Prop}
    (hfind : ∀ {name ss ts}, name ∈ names → R ss ts →
      ss.findSome? (·[name]?) = ts.findSome? (·[name]?))
    (hrebind : ∀ {name ss ts} v, name ∈ names → R ss ts →
      Option.Rel R (rebind? name v ss) (rebind? name v ts)) :
    Chain.Preserves names fun c d => R c.scopes d.scopes where
  get? hname h := hfind hname h
  assign? {name} v c d hname h := by
    have hscopes := hrebind v hname h
    rw [← map_scopes_assign?, ← map_scopes_assign?] at hscopes
    generalize c.assign? name v = x, d.assign? name v = y at hscopes
    cases x <;> cases y <;> cases hscopes
    · exact .none
    · exact .some ‹_›

theorem assign_matches (hR : Chain.Preserves names R) {name : Token}
    (hname : name.lexeme ∈ names) (v : Value) :
    let assign : Evaluation Value := do
      let d ← liftExcept ((← get).assign name v)
      set d
      return v
    Matches R assign assign := by
  intro assign c d h
  simp only [assign, run_bind, run_get, run_liftExcept, Chain.assign]
  have hassign := hR.assign? v hname h
  generalize c.assign? name.lexeme v = x, d.assign? name.lexeme v = y at hassign
  cases hassign with
  | none => exact ⟨rfl, h⟩
  | some h' => exact ⟨rfl, h'⟩

/-- An expression matches itself under a relation that looking up and
assigning its names preserves. -/
theorem eval_matches (hR : Chain.Preserves names R) :
    (e : Expr) → (∀ x ∈ e.names, x ∈ names) → Matches R (eval e) (eval e)
  | .literal v, _ => by
    rw [eval]
    exact .pure v
  | .grouping e, h => by
    rw [eval]
    exact eval_matches hR e h
  | .unary operator e, h => by
    rw [eval]
    exact .bind (eval_matches hR e h) fun v => .lift _
  | .binary left operator right, h => by
    rw [eval]
    obtain ⟨hleft, hright⟩ := List.forall_mem_append.mp h
    exact .bind (eval_matches hR left hleft) fun v =>
      .bind (eval_matches hR right hright) fun w => .lift _
  | .logical left operator right, h => by
    rw [eval]
    obtain ⟨hleft, hright⟩ := List.forall_mem_append.mp h
    refine .bind (eval_matches hR left hleft) fun v => ?_
    split
    · exact .pure v
    · exact eval_matches hR right hright
  | .variable name, h => by
    rw [eval]
    have hname := List.forall_mem_singleton.mp h
    exact .read fun {c d} h => by rw [Chain.get, Chain.get, hR.get? hname h]
  | .assign name e, h => by
    rw [eval]
    obtain ⟨hname, he⟩ := List.forall_mem_cons.mp h
    exact .bind (eval_matches hR e he) fun v => assign_matches hR hname v
  | .alien what, _ => .throw _

end Expressions

/-! ### Statements -/

section Statements

variable {names : Set String} {R : Machine → Machine → Prop} {rounds : Nat}

theorem repeatWhile_matches {condition : Execution Value} {body : Execution Unit}
    (hcondition : Matches R condition condition) (hbody : Matches R body body) :
    (rounds : Nat) →
      Matches R (repeatWhile condition body rounds) (repeatWhile condition body rounds)
  | 0 => .throw _
  | rounds + 1 => by
    refine .bind hcondition fun v => ?_
    split
    · exact .bind hbody fun _ => repeatWhile_matches hcondition hbody rounds
    · exact .pure ()

/-- The operations of a machine preserve relations, one for each number
of scopes that have been entered, as long as no other names than the
given ones occur, and none are bound in the innermost scope but those
that are given for it. In a scope that has been entered every name that
occurs may be bound. -/
structure Machine.PreservesBinding (names : Set String) (bindable : Nat → Set String)
    (R : Nat → Machine → Machine → Prop) : Prop where
  evaluate : ∀ {k} (e : Expr), (∀ x ∈ e.names, x ∈ names) →
    Matches (R k) (evaluate e) (evaluate e)
  print : ∀ {k} text {m n}, R k m n → R k (m.print text) (n.print text)
  define : ∀ {k name} v {m n}, name ∈ bindable k → R k m n →
    R k (m.define name v) (n.define name v)
  inScope : ∀ {k body}, Matches (R (k + 1)) body body → Matches (R k) (inScope body) (inScope body)
  entered : ∀ k, names ⊆ bindable (k + 1)

mutual

/-- A statement matches itself under relations that the operations of a
machine preserve, however many scopes have been entered. -/
theorem exec_matches_binding {bindable : Nat → Set String} {R : Nat → Machine → Machine → Prop}
    (hR : Machine.PreservesBinding names bindable R) (k : Nat) :
    (s : Stmt) → (∀ x ∈ s.names, x ∈ names) → (∀ x ∈ s.declared, x ∈ bindable k) →
      Matches (R k) (exec rounds s) (exec rounds s)
  | .expression e, h, _ => by
    rw [exec]
    exact .bind (hR.evaluate e h) fun _ => .pure ()
  | .print keyword e, h, _ => by
    rw [exec]
    refine .bind (hR.evaluate e h) fun v => ?_
    split
    · exact .throw _
    · exact .update (hR.print _)
  | .var name e, h, hdeclared => by
    rw [exec]
    obtain ⟨-, he⟩ := List.forall_mem_cons.mp h
    have hname := List.forall_mem_singleton.mp hdeclared
    exact .bind (hR.evaluate e he) fun v => .update (hR.define v hname)
  | .block body, h, _ => by
    rw [exec]
    -- one scope further in, the statements may bind what occurs in them
    have hdeclared : ∀ x ∈ body.flatMap Stmt.declared, x ∈ bindable (k + 1) := fun x hx =>
      hR.entered k (h x (Stmt.allDeclared_subset_allNames body hx))
    exact hR.inScope (execAll_matches_binding hR (k + 1) body h hdeclared)
  | .ifThen condition consequent, h, hdeclared => by
    rw [exec]
    obtain ⟨hcondition, hconsequent⟩ := List.forall_mem_append.mp h
    refine .bind (hR.evaluate condition hcondition) fun v => ?_
    split
    · exact exec_matches_binding hR k consequent hconsequent hdeclared
    · exact .pure ()
  | .ifElse condition consequent alternative, h, hdeclared => by
    rw [exec]
    obtain ⟨hcondition, hbranches⟩ := List.forall_mem_append.mp h
    obtain ⟨hconsequent, halternative⟩ := List.forall_mem_append.mp hbranches
    obtain ⟨hconsequent', halternative'⟩ := List.forall_mem_append.mp hdeclared
    refine .bind (hR.evaluate condition hcondition) fun v => ?_
    split
    · exact exec_matches_binding hR k consequent hconsequent hconsequent'
    · exact exec_matches_binding hR k alternative halternative halternative'
  | .while condition body, h, hdeclared => by
    rw [exec]
    obtain ⟨hcondition, hbody⟩ := List.forall_mem_append.mp h
    exact repeatWhile_matches (hR.evaluate condition hcondition)
      (exec_matches_binding hR k body hbody hdeclared) rounds
  | .alien _, _, _ => .throw _

theorem execAll_matches_binding {bindable : Nat → Set String}
    {R : Nat → Machine → Machine → Prop} (hR : Machine.PreservesBinding names bindable R)
    (k : Nat) :
    (ss : List Stmt) → (∀ x ∈ Stmt.allNames ss, x ∈ names) →
      (∀ x ∈ ss.flatMap Stmt.declared, x ∈ bindable k) →
      Matches (R k) (execAll rounds ss) (execAll rounds ss)
  | [], _, _ => by
    rw [execAll]
    exact .pure ()
  | s :: rest, h, hdeclared => by
    rw [execAll]
    obtain ⟨hs, hrest⟩ := List.forall_mem_append.mp h
    rw [List.flatMap_cons] at hdeclared
    obtain ⟨hs', hrest'⟩ := List.forall_mem_append.mp hdeclared
    exact .bind (exec_matches_binding hR k s hs hs') fun _ =>
      execAll_matches_binding hR k rest hrest hrest'

end

/-- The operations of a machine preserve relations, one for each number
of scopes that have been entered, as long as no other names than the
given ones occur. -/
structure Machine.PreservesWithin (names : Set String) (R : Nat → Machine → Machine → Prop) :
    Prop where
  evaluate : ∀ {k} (e : Expr), (∀ x ∈ e.names, x ∈ names) →
    Matches (R k) (evaluate e) (evaluate e)
  print : ∀ {k} text {m n}, R k m n → R k (m.print text) (n.print text)
  define : ∀ {k name} v {m n}, name ∈ names → R k m n → R k (m.define name v) (n.define name v)
  inScope : ∀ {k body}, Matches (R (k + 1)) body body → Matches (R k) (inScope body) (inScope body)

/-- Names that occur may be bound. -/
theorem Machine.PreservesWithin.binding {R : Nat → Machine → Machine → Prop}
    (hR : Machine.PreservesWithin names R) :
    Machine.PreservesBinding names (fun _ => names) R where
  evaluate := hR.evaluate
  print := hR.print
  define := hR.define
  inScope := hR.inScope
  entered _ := Set.Subset.rfl

/-- A statement matches itself under relations that the operations of a
machine preserve on its names, however many scopes have been entered. -/
theorem exec_matches_within {R : Nat → Machine → Machine → Prop}
    (hR : Machine.PreservesWithin names R) (k : Nat) (s : Stmt) (h : ∀ x ∈ s.names, x ∈ names) :
    Matches (R k) (exec rounds s) (exec rounds s) :=
  exec_matches_binding hR.binding k s h fun x hx => h x (s.declared_subset_names hx)

theorem execAll_matches_within {R : Nat → Machine → Machine → Prop}
    (hR : Machine.PreservesWithin names R) (k : Nat) (ss : List Stmt)
    (h : ∀ x ∈ Stmt.allNames ss, x ∈ names) :
    Matches (R k) (execAll rounds ss) (execAll rounds ss) :=
  execAll_matches_binding hR.binding k ss h fun x hx =>
    h x (Stmt.allDeclared_subset_allNames ss hx)

/-- The operations of a machine preserve a relation, as long as no other
names than the given ones occur. -/
structure Machine.Preserves (names : Set String) (R : Machine → Machine → Prop) : Prop where
  evaluate : ∀ e : Expr, (∀ x ∈ e.names, x ∈ names) → Matches R (evaluate e) (evaluate e)
  print : ∀ text {m n}, R m n → R (m.print text) (n.print text)
  define : ∀ {name} v {m n}, name ∈ names → R m n → R (m.define name v) (n.define name v)
  inScope : ∀ {body}, Matches R body body → Matches R (inScope body) (inScope body)

/-- A relation that does not ask how many scopes have been entered. -/
theorem Machine.Preserves.within (hR : Machine.Preserves names R) :
    Machine.PreservesWithin names fun _ => R where
  evaluate := hR.evaluate
  print := hR.print
  define := hR.define
  inScope := hR.inScope

/-- A statement matches itself under a relation that the operations of a
machine preserve on its names. -/
theorem exec_matches (hR : Machine.Preserves names R) (s : Stmt) (h : ∀ x ∈ s.names, x ∈ names) :
    Matches R (exec rounds s) (exec rounds s) :=
  exec_matches_within hR.within 0 s h

theorem execAll_matches (hR : Machine.Preserves names R) (ss : List Stmt)
    (h : ∀ x ∈ Stmt.allNames ss, x ∈ names) :
    Matches R (execAll rounds ss) (execAll rounds ss) :=
  execAll_matches_within hR.within 0 ss h

end Statements

/-! ### Noted events -/

/-- Two machines are the same but for the events that they have noted. -/
def Machine.SameUnnoted (m n : Machine) : Prop :=
  ∃ events, n = { m with events }

/-- What is noted next goes in front of what has been noted. -/
theorem Machine.SameUnnoted.note {m n : Machine} (h : m.SameUnnoted n) (event : ScopeEvent) :
    (m.note event).SameUnnoted (n.note event) := by
  obtain ⟨events, rfl⟩ := h
  unfold Machine.note
  split
  · exact ⟨event :: events, rfl⟩
  · exact ⟨events, rfl⟩

theorem Machine.preserves_sameUnnoted : Machine.Preserves Set.univ Machine.SameUnnoted where
  evaluate e _ := by
    rintro m _ ⟨events, rfl⟩
    exact ⟨rfl, events, rfl⟩
  print text := by
    rintro m _ ⟨events, rfl⟩
    exact ⟨events, rfl⟩
  define v := by
    rintro m _ _ ⟨events, rfl⟩
    exact ⟨events, rfl⟩
  inScope {body} hbody := by
    rintro m _ ⟨events, rfl⟩
    have henter : m.enter.SameUnnoted ({ m with events } : Machine).enter :=
      Machine.SameUnnoted.note ⟨events, rfl⟩ _
    obtain ⟨hresult, events', hstate⟩ := hbody _ _ henter
    rw [run_inScope, run_inScope, hstate]
    exact ⟨hresult, Machine.SameUnnoted.note ⟨events', rfl⟩ _⟩

/-- What was noted before has no influence on what statements do. -/
theorem execAll_unnoted (rounds : Nat) (ss : List Stmt) :
    Matches Machine.SameUnnoted (execAll rounds ss) (execAll rounds ss) :=
  execAll_matches Machine.preserves_sameUnnoted ss fun _ _ => Set.mem_univ _

/-! ### Statements in order -/

/-- Statements in two parts are executed part by part. -/
theorem run_execAll_append (rounds : Nat) (ss ss' : List Stmt) (m : Machine) :
    (execAll rounds (ss ++ ss')).run.run m =
      match (execAll rounds ss).run.run m with
      | (.ok _, n) => (execAll rounds ss').run.run n
      | (.error fault, n) => (.error fault, n) := by
  induction ss generalizing m with
  | nil => rfl
  | cons s ss ih =>
    rw [List.cons_append, execAll, execAll, run_bind, run_bind]
    rcases (exec rounds s).run.run m with ⟨_ | _, n⟩
    · rfl
    · exact ih n

end LoxLang
