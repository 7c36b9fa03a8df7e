import LoxLang.Execution

/-!
# `LoxLang.Proofs.Execution.Runs`: what a computation does to its state

Evaluations, executions and the runs of a session are computations on
a state that may end in a fault and keep the state in either case. The
equations of `run` say what each way to build one does.

* `Leads`: however the computation ends, its last state is related to
  the first;
* `Fails`: if the computation fails, it is in one of some ways.

Both hold of a sequence if they hold of its parts (`Leads.bind`,
`Fails.bind`), so a proof about an interpreter goes along its clauses.
Where a loop leads and how it may fail is said once, for any relation
and any faults (`repeatWhile_leads`, `repeatWhile_fails`).
-/

set_option autoImplicit false

namespace LoxLang

variable {σ ε α β : Type}

/-! ### Running -/

theorem run_bind (x : ExceptT ε (StateM σ) α) (f : α → ExceptT ε (StateM σ) β) (s : σ) :
    (x >>= f).run.run s =
      match x.run.run s with
      | (.ok a, s) => (f a).run.run s
      | (.error e, s) => (.error e, s) := by
  rw [ExceptT.run_bind, StateT.run_bind]
  show (match x.run.run s with | (a, s) => _) = _
  rcases x.run.run s with ⟨_ | _, _⟩ <;> rfl

@[simp] theorem run_pure (a : α) (s : σ) :
    (pure a : ExceptT ε (StateM σ) α).run.run s = (.ok a, s) := rfl

@[simp] theorem run_throw (e : ε) (s : σ) :
    (throw e : ExceptT ε (StateM σ) α).run.run s = (.error e, s) := rfl

@[simp] theorem run_get (s : σ) : (get : ExceptT ε (StateM σ) σ).run.run s = (.ok s, s) := rfl

@[simp] theorem run_set (s t : σ) :
    (set t : ExceptT ε (StateM σ) PUnit).run.run s = (.ok ⟨⟩, t) := rfl

@[simp] theorem run_modify (f : σ → σ) (s : σ) :
    (modify f : ExceptT ε (StateM σ) PUnit).run.run s = (.ok ⟨⟩, f s) := rfl

@[simp] theorem run_liftExcept (x : Except ε α) (s : σ) :
    (liftExcept x : ExceptT ε (StateM σ) α).run.run s = (x, s) := by
  cases x <;> rfl

theorem run_liftExcept_mapError {ε' : Type} (x : Except ε' α) (f : ε' → ε) (s : σ) :
    (liftExcept (x.mapError f) : ExceptT ε (StateM σ) α).run.run s =
      match x with
      | .ok a => (.ok a, s)
      | .error e => (.error (f e), s) := by
  cases x <;> rfl

/-- Evaluation acts on the scopes of a machine and on nothing else of
it. -/
theorem run_evaluate (e : Expr) (m : Machine) :
    (evaluate e).run.run m =
      (((eval e).run.run m.chain).1, { m with chain := ((eval e).run.run m.chain).2 }) := rfl

/-- What is executed in a new scope runs there, and the machine returns
to the place where it was. -/
theorem run_inScope (body : Execution Unit) (m : Machine) :
    (inScope body).run.run m =
      ((body.run.run m.enter).1, (body.run.run m.enter).2.leave m.place) := rfl

/-! ### Leading from state to state -/

/-- However the computation ends, its last state is related to the
first. -/
def Leads (R : σ → σ → Prop) (x : ExceptT ε (StateM σ) α) : Prop :=
  ∀ s, R s (x.run.run s).2

section Leads

variable {R : σ → σ → Prop} {x : ExceptT ε (StateM σ) α} {f : α → ExceptT ε (StateM σ) β}

theorem Leads.of_run (h : Leads R x) {s t : σ} {r : Except ε α} (hrun : x.run.run s = (r, t)) :
    R s t := by
  have hlast := h s
  rwa [hrun] at hlast

theorem Leads.pure (hrefl : ∀ s, R s s) (a : α) :
    Leads R (Pure.pure a : ExceptT ε (StateM σ) α) := by
  intro s
  rw [run_pure]
  exact hrefl s

theorem Leads.throw (hrefl : ∀ s, R s s) (e : ε) :
    Leads R (MonadExcept.throw e : ExceptT ε (StateM σ) α) := by
  intro s
  rw [run_throw]
  exact hrefl s

theorem Leads.lift (hrefl : ∀ s, R s s) (x : Except ε α) :
    Leads R (liftExcept x : ExceptT ε (StateM σ) α) := by
  intro s
  rw [run_liftExcept]
  exact hrefl s

theorem Leads.bind (htrans : ∀ {s t u}, R s t → R t u → R s u) (hx : Leads R x)
    (hf : ∀ a, Leads R (f a)) : Leads R (x >>= f) := by
  intro s
  have hs := hx s
  rw [run_bind]
  -- a fault in the first part ends the whole there
  rcases hrun : x.run.run s with ⟨_ | a, t⟩ <;> rw [hrun] at hs
  · exact hs
  · exact htrans hs (hf a t)

/-- A loop leads as far as its rounds do, however many there are. -/
theorem repeatWhile_leads {R : Machine → Machine → Prop} (hrefl : ∀ m, R m m)
    (htrans : ∀ {m n k}, R m n → R n k → R m k) {condition : Execution Value}
    {body : Execution Unit} (hcondition : Leads R condition) (hbody : Leads R body) :
    (rounds : Nat) → Leads R (repeatWhile condition body rounds)
  | 0 => .throw hrefl _
  | rounds + 1 => by
    refine .bind htrans hcondition fun v => ?_
    split
    · exact .bind htrans hbody fun _ => repeatWhile_leads hrefl htrans hcondition hbody rounds
    · exact .pure hrefl ()

end Leads

/-! ### Failing -/

/-- If the computation fails, it is in one of some ways. -/
def Fails (P : ε → Prop) (x : ExceptT ε (StateM σ) α) : Prop :=
  ∀ s e, (x.run.run s).1 = .error e → P e

section Fails

variable {P : ε → Prop} {x : ExceptT ε (StateM σ) α} {f : α → ExceptT ε (StateM σ) β}

theorem Fails.pure (a : α) : Fails P (Pure.pure a : ExceptT ε (StateM σ) α) :=
  fun _ _ h => nomatch h

theorem Fails.get : Fails P (MonadState.get : ExceptT ε (StateM σ) σ) :=
  fun _ _ h => nomatch h

theorem Fails.set (s : σ) : Fails P (MonadStateOf.set s : ExceptT ε (StateM σ) PUnit) :=
  fun _ _ h => nomatch h

theorem Fails.update (f : σ → σ) : Fails P (modify f : ExceptT ε (StateM σ) PUnit) :=
  fun _ _ h => nomatch h

theorem Fails.throw {e : ε} (h : P e) :
    Fails P (MonadExcept.throw e : ExceptT ε (StateM σ) α) := by
  rintro _ _ ⟨⟩
  exact h

theorem Fails.lift {x : Except ε α} (h : ∀ e, x = .error e → P e) :
    Fails P (liftExcept x : ExceptT ε (StateM σ) α) := by
  intro s e he
  rw [run_liftExcept] at he
  exact h e he

theorem Fails.bind (hx : Fails P x) (hf : ∀ a, Fails P (f a)) : Fails P (x >>= f) := by
  intro s e he
  rw [run_bind] at he
  rcases hrun : x.run.run s with ⟨_ | a, t⟩ <;> rw [hrun] at he
  · cases he
    exact hx s e (congrArg Prod.fst hrun)
  · exact hf a t e he

end Fails

section Machines

variable {P : Fault → Prop}

theorem evaluate_fails {e : Expr} (h : Fails P (eval e)) : Fails P (evaluate e) := by
  intro m fault hfault
  rw [run_evaluate] at hfault
  exact h m.chain fault hfault

/-- Entering and leaving a scope cannot fail. -/
theorem inScope_fails {body : Execution Unit} (h : Fails P body) : Fails P (inScope body) :=
  fun m fault hfault => h m.enter fault hfault

/-- In each of its rounds a loop fails as its condition or its body does,
and it may be cut off. -/
theorem repeatWhile_fails (hrounds : P .outOfRounds) {condition : Execution Value}
    {body : Execution Unit} (hcondition : Fails P condition) (hbody : Fails P body) :
    (rounds : Nat) → Fails P (repeatWhile condition body rounds)
  | 0 => .throw hrounds
  | rounds + 1 => by
    refine .bind hcondition fun v => ?_
    split
    · exact .bind hbody fun _ => repeatWhile_fails hrounds hcondition hbody rounds
    · exact .pure ()

end Machines

end LoxLang
