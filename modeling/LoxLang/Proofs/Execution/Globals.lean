import LoxLang.Proofs.Execution.Simulation

/-!
# `LoxLang.Proofs.Execution.Globals`: names of the globals alone

An expression that uses no name of the scopes around it but the globals
can be evaluated at the globals alone: it has the same value there, and
what it rebinds are globals, which can be put back under the other
scopes (`Chain.withGlobals`). So it does not matter in which block the
expression stands.

* `Scope.OnGlobals`: scopes with globals under them, and the globals;
* `eval_of_globals`: evaluation in a block and at the globals.
-/

set_option autoImplicit false

namespace LoxLang

/-! ### Globals of a chain -/

namespace Chain

variable {c : Chain}

/-- The scopes of a chain inside of the globals. -/
def inner (c : Chain) : List Scope :=
  c.scopes.dropLast

theorem inner_append_globals (c : Chain) : c.inner ++ [c.globals] = c.scopes := by
  rw [inner, globals, ← List.getLast_eq_getLastD (h := List.cons_ne_nil c.scope c.outer)]
  exact List.dropLast_append_getLast (List.cons_ne_nil c.scope c.outer)

/-- Other globals take the place of the outermost scope. -/
theorem scopes_withGlobals (globals : Scope) (c : Chain) :
    (c.withGlobals globals).scopes = c.inner ++ [globals] := by
  obtain ⟨scope, outer⟩ := c
  cases outer <;> rfl

theorem scopes_inj {d : Chain} (h : c.scopes = d.scopes) : c = d := by
  obtain ⟨scope, outer⟩ := c
  obtain ⟨scope', outer'⟩ := d
  cases h
  rfl

end Chain

/-! ### Scopes over globals -/

/-- Some scopes with globals under them, and these globals alone. -/
inductive Scope.OnGlobals (inner : List Scope) : List Scope → List Scope → Prop
  | intro (globals : Scope) : OnGlobals inner (inner ++ [globals]) [globals]

section Scopes

variable {inner ss ts : List Scope} {name : String}

/-- A name that the inner scopes do not bind is looked up in the
globals. -/
theorem Scope.OnGlobals.findSome? (h : Scope.OnGlobals inner ss ts)
    (hname : ∀ s ∈ inner, name ∉ s) :
    ss.findSome? (·[name]?) = ts.findSome? (·[name]?) := by
  obtain ⟨globals⟩ := h
  have hinner : inner.findSome? (·[name]?) = none :=
    List.findSome?_eq_none_iff.mpr fun s hs => Std.TreeMap.getElem?_eq_none (hname s hs)
  rw [List.findSome?_append, hinner, Option.none_or]

/-- A name that the scopes in front do not bind is rebound behind them. -/
theorem Chain.rebind?_append (v : Value) (hname : ∀ s ∈ inner, name ∉ s) (ts : List Scope) :
    Chain.rebind? name v (inner ++ ts) = (Chain.rebind? name v ts).map (inner ++ ·) := by
  induction inner with
  | nil => simp
  | cons s inner ih =>
    obtain ⟨hs, hinner⟩ := List.forall_mem_cons.mp hname
    rw [List.cons_append, Chain.rebind?, if_neg hs, ih hinner, Option.map_map]
    rfl

theorem Scope.OnGlobals.rebind? (h : Scope.OnGlobals inner ss ts)
    (hname : ∀ s ∈ inner, name ∉ s) (v : Value) :
    Option.Rel (Scope.OnGlobals inner) (Chain.rebind? name v ss) (Chain.rebind? name v ts) := by
  obtain ⟨globals⟩ := h
  rw [Chain.rebind?_append v hname, Chain.rebind?]
  split
  · exact .some (.intro _)
  · exact .none

/-- Over the globals of a chain that has no other scopes. -/
theorem Scope.OnGlobals.scopes_eq {d : Chain} (h : Scope.OnGlobals inner ss d.scopes) :
    ss = inner ++ [d.globals] := by
  obtain ⟨scope, outer⟩ := d
  generalize hscopes : Chain.scopes ⟨scope, outer⟩ = ts at h
  obtain ⟨globals⟩ := h
  cases hscopes
  rfl

end Scopes

/-- Names that no scope inside of the globals binds are looked up and
assigned as at the globals alone. -/
theorem Chain.preserves_onGlobals (inner : List Scope) :
    Chain.Preserves {name | ∀ s ∈ inner, name ∉ s}
      fun c d => Scope.OnGlobals inner c.scopes d.scopes :=
  .of_scopes (fun hname h => h.findSome? hname) fun v hname h => h.rebind? hname v

/-! ### Expressions -/

/-- Where no scope inside of the globals binds a name of an expression, it
evaluates as at the globals alone, and leaves the other scopes as they
are. -/
theorem eval_of_globals {e : Expr} {c : Chain} (h : ∀ name ∈ e.names, ∀ s ∈ c.inner, name ∉ s) :
    (eval e).run.run c =
      (((eval e).run.run c.root).1, c.withGlobals ((eval e).run.run c.root).2.globals) := by
  have hrelated : Scope.OnGlobals c.inner c.scopes c.root.scopes := by
    rw [← c.inner_append_globals]
    exact .intro c.globals
  obtain ⟨hvalue, hchain⟩ := eval_matches (Chain.preserves_onGlobals c.inner) e h _ _ hrelated
  refine Prod.ext hvalue (Chain.scopes_inj ?_)
  rw [hchain.scopes_eq, Chain.scopes_withGlobals]

end LoxLang
