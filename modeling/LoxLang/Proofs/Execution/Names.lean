import LoxLang.Proofs.Execution.Runs
import Mathlib.Data.List.Forall2

/-!
# `LoxLang.Proofs.Execution.Names`: which names a statement binds

However a statement ends, it is run against the same scopes afterwards,
and the current scope is the one that it was. Values may have changed
in all of them, but names are bound in the innermost scope only, and
there only those that the statement declares outside of its blocks.

* `Chain.Extends`: a chain has the names of another one, and in its
  innermost scope perhaps some more;
* `eval_keeps`: an expression binds no name;
* `exec_keeps`: a statement binds no name but those it declares;
* `exec_frame`: both for a machine, with the current scope and the text
  printed.
-/

set_option autoImplicit false

namespace LoxLang

/-! ### Scopes one by one -/

/-- What leads from scope to scope leads from scopes to scopes. -/
theorem Scope.forall₂_trans {R : Scope → Scope → Prop}
    (htrans : ∀ {s t u}, R s t → R t u → R s u) {ss ts us : List Scope}
    (h : List.Forall₂ R ss ts) (h' : List.Forall₂ R ts us) : List.Forall₂ R ss us := by
  induction h generalizing us with
  | nil => exact h'
  | cons hs _ ih =>
    obtain _ | ⟨hs', hrest⟩ := h'
    exact .cons (htrans hs hs') (ih hrest)

/-- The nearest scope with the name is changed, and those around it are
kept. -/
theorem Chain.forall₂_of_rebind? {R : Scope → Scope → Prop} (hrefl : ∀ s, R s s) {name : String}
    {v : Value} (hinsert : ∀ s : Scope, name ∈ s → R s (s.insert name v)) {ss ts : List Scope}
    (h : Chain.rebind? name v ss = some ts) : List.Forall₂ R ss ts := by
  induction ss generalizing ts with
  | nil => cases h
  | cons s outer ih =>
    rw [Chain.rebind?] at h
    split at h
    · next hname =>
      cases h
      exact .cons (hinsert s hname) (List.forall₂_same.mpr fun s _ => hrefl s)
    · obtain ⟨outer', houter, rfl⟩ := Option.map_eq_some_iff.mp h
      exact .cons (hrefl s) (ih houter)

/-- A name that is assigned is one of the innermost scope, or it is
rebound in those around it. -/
theorem Chain.assign_cases {name : Token} {v : Value} {c d : Chain} (h : c.assign name v = .ok d) :
    (name.lexeme ∈ c.scope ∧ d = c.define name.lexeme v) ∨
      ∃ outer, Chain.rebind? name.lexeme v c.outer = some outer ∧ d = { c with outer } := by
  rw [Chain.assign, Chain.assign?] at h
  by_cases hname : name.lexeme ∈ c.scope
  · rw [if_pos hname] at h
    exact .inl ⟨hname, (Except.ok.inj h).symm⟩
  · rw [if_neg hname] at h
    cases houter : Chain.rebind? name.lexeme v c.outer with
    | none => rw [houter] at h; cases h
    | some outer =>
      rw [houter] at h
      exact .inr ⟨outer, rfl, (Except.ok.inj h).symm⟩

/-! ### Names of scopes -/

/-- Two scopes bind the same names. -/
def Scope.SameNames (s t : Scope) : Prop :=
  ∀ name, name ∈ s ↔ name ∈ t

theorem Scope.SameNames.refl (s : Scope) : s.SameNames s :=
  fun _ => Iff.rfl

theorem Scope.SameNames.trans {s t u : Scope} (h : s.SameNames t) (h' : t.SameNames u) :
    s.SameNames u :=
  fun name => (h name).trans (h' name)

/-- Scopes bind the same names one by one. -/
abbrev Scope.AllSameNames : List Scope → List Scope → Prop :=
  List.Forall₂ SameNames

theorem Scope.allSameNames_refl (ss : List Scope) : AllSameNames ss ss :=
  List.forall₂_same.mpr fun s _ => SameNames.refl s

theorem Scope.mem_insert {s : Scope} {name other : String} {v : Value} :
    other ∈ s.insert name v ↔ other = name ∨ other ∈ s := by
  rw [Std.TreeMap.mem_insert, Std.LawfulEqCmp.compare_eq_iff_eq, eq_comm]

/-- Rebinding a name that a scope has. -/
theorem Scope.sameNames_insert {s : Scope} {name : String} (h : name ∈ s) (v : Value) :
    s.SameNames (s.insert name v) := by
  intro other
  rw [Scope.mem_insert]
  constructor
  · exact .inr
  · rintro (rfl | hother)
    · exact h
    · exact hother

/-! ### Names of chains -/

/-- A chain has the same scopes as another one and each binds the same
names, save that the innermost may also bind some of the given ones. -/
structure Chain.Extends (names : List String) (c d : Chain) : Prop where
  kept : ∀ name, name ∈ c.scope → name ∈ d.scope
  gained : ∀ name, name ∈ d.scope → name ∈ c.scope ∨ name ∈ names
  outer : Scope.AllSameNames c.outer d.outer

namespace Chain.Extends

variable {names : List String} {c d e : Chain}

theorem refl (c : Chain) : c.Extends names c :=
  ⟨fun _ => id, fun _ => .inl, Scope.allSameNames_refl c.outer⟩

theorem trans (h : c.Extends names d) (h' : d.Extends names e) : c.Extends names e where
  kept name hname := h'.kept name (h.kept name hname)
  gained name hname := (h'.gained name hname).elim (h.gained name) .inr
  outer := Scope.forall₂_trans .trans h.outer h'.outer

theorem define {name : String} (hname : name ∈ names) (v : Value) (c : Chain) :
    c.Extends names (c.define name v) where
  kept _ hother := Scope.mem_insert.mpr (.inr hother)
  gained _ hother := (Scope.mem_insert.mp hother).elim (fun h => .inr (h ▸ hname)) .inl
  outer := Scope.allSameNames_refl c.outer

/-- A chain that has nothing around its scope has nothing around it
then. -/
theorem outer_eq_nil (h : c.Extends names d) (houter : c.outer = []) : d.outer = [] := by
  have hsame := h.outer
  rw [houter] at hsame
  exact List.forall₂_nil_left_iff.mp hsame

end Chain.Extends

theorem Chain.Extends.assign {names : List String} {name : Token} {v : Value} {c d : Chain}
    (h : c.assign name v = .ok d) : c.Extends names d := by
  rcases Chain.assign_cases h with ⟨hname, rfl⟩ | ⟨outer, houter, rfl⟩
  -- the innermost scope has the name already
  · have hsame := Scope.sameNames_insert hname v
    exact ⟨fun other => (hsame other).mp, fun other hother => .inl ((hsame other).mpr hother),
      Scope.allSameNames_refl c.outer⟩
  · have hsame : Scope.AllSameNames c.outer outer :=
      Chain.forall₂_of_rebind? .refl (fun s hname => Scope.sameNames_insert hname v) houter
    exact ⟨fun _ => id, fun _ => .inl, hsame⟩

/-- Names bound in a new scope are gone when it is left. -/
theorem Chain.Extends.leave {names names' : List String} {c d : Chain}
    (h : c.enter.Extends names d) : c.Extends names' d.leave := by
  obtain ⟨scope, outer⟩ := d
  -- the scopes outside of the new one are those of `c`, and the first of them is then
  -- the innermost one again
  obtain _ | ⟨hscope, houter⟩ := h.outer
  exact ⟨fun name => (hscope name).mp, fun name hname => .inl ((hscope name).mpr hname), houter⟩

/-! ### Expressions -/

variable {names : List String}

/-- An assignment rebinds a name. -/
theorem assign_keeps (name : Token) (v : Value) :
    Leads (Chain.Extends names) (do
      let d ← liftExcept ((← get).assign name v)
      set d
      return v : Evaluation Value) := by
  intro c
  simp only [run_bind, run_get, run_liftExcept]
  -- a name that no scope has leaves the chain as it is
  cases h : c.assign name v with
  | error fault => exact .refl c
  | ok d =>
    simp only [run_set, run_pure]
    exact .assign h

/-- An expression binds no name. -/
theorem eval_keeps : (e : Expr) → Leads (Chain.Extends names) (eval e)
  | .literal v => .pure .refl v
  | .grouping e => eval_keeps e
  | .unary _ e => .bind .trans (eval_keeps e) fun _ => .lift .refl _
  | .binary left _ right =>
    .bind .trans (eval_keeps left) fun _ => .bind .trans (eval_keeps right) fun _ =>
      .lift .refl _
  | .logical left _ right => by
    refine .bind .trans (eval_keeps left) fun v => ?_
    split
    · exact .pure .refl v
    · exact eval_keeps right
  | .variable _ => .bind .trans .refl fun _ => .lift .refl _
  | .assign name e => .bind .trans (eval_keeps e) (assign_keeps name)
  | .alien _ => .throw .refl _

/-! ### Statements -/

/-- The names that a statement declares outside of its blocks. -/
def Stmt.declared : Stmt → List String
  | .var name _ => [name.lexeme]
  | .ifThen _ consequent => consequent.declared
  | .ifElse _ consequent alternative => consequent.declared ++ alternative.declared
  | .while _ body => body.declared
  | .expression _ | .print _ _ | .block _ | .alien _ => []

/-- A machine has the same current scope as another one, and the scopes
that it runs statements against are the same, where the innermost may
bind some more names. -/
structure Machine.Keeps (names : List String) (m n : Machine) : Prop where
  place : n.place = m.place
  chain : m.chain.Extends names n.chain

namespace Machine.Keeps

variable {m n k : Machine}

theorem refl (m : Machine) : m.Keeps names m :=
  ⟨rfl, .refl m.chain⟩

theorem trans (h : m.Keeps names n) (h' : n.Keeps names k) : m.Keeps names k :=
  ⟨h'.place.trans h.place, h.chain.trans h'.chain⟩

end Machine.Keeps

theorem evaluate_keeps (e : Expr) : Leads (Machine.Keeps names) (evaluate e) :=
  fun m => ⟨rfl, eval_keeps e m.chain⟩

@[simp] theorem Machine.chain_note (event : ScopeEvent) (m : Machine) :
    (m.note event).chain = m.chain := by
  rw [Machine.note]
  split <;> rfl

@[simp] theorem Machine.place_note (event : ScopeEvent) (m : Machine) :
    (m.note event).place = m.place := by
  rw [Machine.note]
  split <;> rfl

@[simp] theorem Machine.printed_note (event : ScopeEvent) (m : Machine) :
    (m.note event).printed = m.printed := by
  rw [Machine.note]
  split <;> rfl

@[simp] theorem Machine.printed_enter (m : Machine) : m.enter.printed = m.printed :=
  Machine.printed_note _ _

@[simp] theorem Machine.printed_leave (previous : Machine.Place) (m : Machine) :
    (m.leave previous).printed = m.printed := by
  rw [Machine.leave, Machine.printed_note]

@[simp] theorem Machine.chain_enter (m : Machine) : m.enter.chain = m.chain.enter :=
  Machine.chain_note _ _

@[simp] theorem Machine.chain_leave (previous : Machine.Place) (m : Machine) :
    (m.leave previous).chain = m.chain.leave := by
  rw [Machine.leave, Machine.chain_note]

@[simp] theorem Machine.place_leave (previous : Machine.Place) (m : Machine) :
    (m.leave previous).place = previous := by
  rw [Machine.leave, Machine.place_note]

/-- Names bound in a new scope are gone when it is left, however the
execution in it ends. -/
theorem inScope_keeps {names' : List String} {body : Execution Unit}
    (h : Leads (Machine.Keeps names') body) : Leads (Machine.Keeps names) (inScope body) := by
  intro m
  have hbody := (h m.enter).chain
  rw [Machine.chain_enter] at hbody
  rw [run_inScope]
  exact ⟨Machine.place_leave _ _, by rw [Machine.chain_leave]; exact hbody.leave⟩

mutual

/-- A statement binds no name but those it declares outside of its
blocks. -/
theorem exec_keeps {names : List String} (rounds : Nat) :
    (s : Stmt) → s.declared ⊆ names → Leads (Machine.Keeps names) (exec rounds s)
  | .expression e, _ => .bind .trans (evaluate_keeps e) fun _ => .pure .refl ()
  | .print keyword e, _ => by
    rw [exec]
    refine .bind .trans (evaluate_keeps e) fun v => ?_
    split
    · exact .throw .refl _
    · exact fun m => ⟨rfl, .refl m.chain⟩
  | .var name e, h => by
    rw [exec]
    refine .bind .trans (evaluate_keeps e) fun v m => ⟨rfl, ?_⟩
    exact .define (h (List.mem_singleton_self _)) v m.chain
  | .block body, _ => by
    rw [exec]
    -- inside, the statements may declare what they like
    exact inScope_keeps (execAll_keeps rounds body (List.Subset.refl _))
  | .ifThen condition consequent, h => by
    rw [exec]
    refine .bind .trans (evaluate_keeps condition) fun v => ?_
    split
    · exact exec_keeps rounds consequent h
    · exact .pure .refl ()
  | .ifElse condition consequent alternative, h => by
    rw [exec]
    obtain ⟨hconsequent, halternative⟩ := List.append_subset.mp h
    refine .bind .trans (evaluate_keeps condition) fun v => ?_
    split
    · exact exec_keeps rounds consequent hconsequent
    · exact exec_keeps rounds alternative halternative
  | .while condition body, h => by
    rw [exec]
    exact repeatWhile_leads .refl .trans (evaluate_keeps condition) (exec_keeps rounds body h)
      rounds
  | .alien _, _ => .throw .refl _

theorem execAll_keeps {names : List String} (rounds : Nat) :
    (ss : List Stmt) → ss.flatMap Stmt.declared ⊆ names →
      Leads (Machine.Keeps names) (execAll rounds ss)
  | [], _ => .pure .refl ()
  | s :: rest, h => by
    rw [List.flatMap_cons] at h
    obtain ⟨hs, hrest⟩ := List.append_subset.mp h
    rw [execAll]
    exact .bind .trans (exec_keeps rounds s hs) fun _ => execAll_keeps rounds rest hrest

end

/-! ### The frame of an execution -/

/-- However the execution of a statement ends, the current scope is the
one that it was, the statement was run against as many scopes as are
left, each scope but the innermost binds the names that it bound, and
the innermost binds these and perhaps names that the statement declares
outside of its blocks. An expression binds no name at all, and nothing
but scopes is changed by it. -/
theorem exec_frame (rounds : Nat) (m : Machine) :
    (∀ s : Stmt,
      let n := ((exec rounds s).run.run m).2
      n.place = m.place ∧
        n.chain.depth = m.chain.depth ∧
        List.Forall₂ Scope.SameNames m.chain.outer n.chain.outer ∧
        (∀ name, name ∈ m.chain.scope → name ∈ n.chain.scope) ∧
        ∀ name, name ∈ n.chain.scope → name ∈ m.chain.scope ∨ name ∈ s.declared) ∧
      ∀ e : Expr,
        let n := ((evaluate e).run.run m).2
        n = { m with chain := n.chain } ∧
          List.Forall₂ Scope.SameNames m.chain.scopes n.chain.scopes := by
  constructor
  · intro s
    obtain ⟨hplace, hchain⟩ := exec_keeps rounds s (List.Subset.refl _) m
    exact ⟨hplace, hchain.outer.length_eq.symm, hchain.outer, hchain.kept, hchain.gained⟩
  · intro e
    -- with no names to gain, the innermost scope is like the others
    obtain ⟨hkept, hgained, houter⟩ := @eval_keeps [] e m.chain
    refine ⟨rfl, .cons (fun name => ⟨hkept name, fun hname => ?_⟩) houter⟩
    exact (hgained name hname).resolve_right List.not_mem_nil

end LoxLang
