import LoxLang.Proofs.Execution.Names
import LoxLang.Proofs.Execution.Simulation
import Mathlib.Data.Set.Basic

/-!
# `LoxLang.Proofs.Execution.Agreement`: what the other names are does not matter

A statement reads and changes the variables that occur in it, and no
others. So against scopes that agree on its names it does the same,
whatever else is bound in them, and what else is bound stays bound.

* `Chain.AgreeOn`: two chains agree on some names, scope by scope;
* `Chain.preserves_agreeOn`, `Machine.preserves_agree`: the same is done
  where the chains agree on the names that occur;
* `eval_leads_agreeOn`, `exec_leads_agreeOn`: on all other names a chain
  agrees with what it was;
* `exec_agreeOn`: both for a statement.
-/

set_option autoImplicit false

namespace LoxLang

variable {names : Set String} {name : String}

/-! ### Scopes that agree -/

/-- Two scopes agree on some names: they bind the same of them, to the
same values. -/
def Scope.AgreeOn (names : Set String) (s t : Scope) : Prop :=
  ∀ name ∈ names, s[name]? = t[name]?

namespace Scope.AgreeOn

variable {s t u : Scope}

theorem refl (s : Scope) : s.AgreeOn names s :=
  fun _ _ => rfl

theorem trans (h : s.AgreeOn names t) (h' : t.AgreeOn names u) : s.AgreeOn names u :=
  fun name hname => (h name hname).trans (h' name hname)

theorem mem_iff (h : s.AgreeOn names t) (hname : name ∈ names) : name ∈ s ↔ name ∈ t := by
  rw [Std.TreeMap.mem_iff_isSome_getElem?, Std.TreeMap.mem_iff_isSome_getElem?, h name hname]

theorem insert (h : s.AgreeOn names t) (name : String) (v : Value) :
    AgreeOn names (s.insert name v) (t.insert name v) := by
  intro other hother
  rw [Std.TreeMap.getElem?_insert, Std.TreeMap.getElem?_insert, h other hother]

/-- Binding some other name changes nothing of them. -/
theorem insert_of_notMem (hname : name ∉ names) (s : Scope) (v : Value) :
    s.AgreeOn names (s.insert name v) := by
  intro other hother
  have hne : name ≠ other := by
    rintro rfl
    exact hname hother
  rw [Std.TreeMap.getElem?_insert, if_neg]
  rwa [Std.LawfulEqCmp.compare_eq_iff_eq]

end Scope.AgreeOn

/-- Scopes agree one by one. -/
abbrev Scope.AllAgreeOn (names : Set String) : List Scope → List Scope → Prop :=
  List.Forall₂ (Scope.AgreeOn names)

namespace Scope.AllAgreeOn

variable {ss ts us : List Scope}

theorem refl (ss : List Scope) : AllAgreeOn names ss ss :=
  List.forall₂_same.mpr fun s _ => .refl s

/-- A name is found in both or in neither, with the same value. -/
theorem findSome? (h : AllAgreeOn names ss ts) (hname : name ∈ names) :
    ss.findSome? (·[name]?) = ts.findSome? (·[name]?) := by
  induction h with
  | nil => rfl
  | cons hs _ ih => rw [List.findSome?_cons, List.findSome?_cons, hs name hname, ih]

/-- A name is rebound in both or in neither, and then in the same
place. -/
theorem rebind? (h : AllAgreeOn names ss ts) (hname : name ∈ names) (v : Value) :
    Option.Rel (AllAgreeOn names) (Chain.rebind? name v ss) (Chain.rebind? name v ts) := by
  induction h with
  | nil => exact .none
  | @cons s t ss ts hs hrest ih =>
    rw [Chain.rebind?, Chain.rebind?]
    by_cases hmem : name ∈ s
    · rw [if_pos hmem, if_pos ((hs.mem_iff hname).mp hmem)]
      exact .some (.cons (hs.insert name v) hrest)
    · rw [if_neg hmem, if_neg (mt (hs.mem_iff hname).mpr hmem)]
      generalize Chain.rebind? name v ss = x, Chain.rebind? name v ts = y at ih
      cases ih with
      | none => exact .none
      | some h => exact .some (.cons hs h)

end Scope.AllAgreeOn

/-! ### Chains that agree -/

/-- Two chains agree on some names, scope by scope. -/
def Chain.AgreeOn (names : Set String) (c d : Chain) : Prop :=
  Scope.AllAgreeOn names c.scopes d.scopes

namespace Chain.AgreeOn

variable {c d e : Chain}

theorem refl (c : Chain) : c.AgreeOn names c :=
  Scope.AllAgreeOn.refl c.scopes

theorem trans (h : c.AgreeOn names d) (h' : d.AgreeOn names e) : c.AgreeOn names e :=
  Scope.forall₂_trans .trans h h'

theorem scope (h : c.AgreeOn names d) : c.scope.AgreeOn names d.scope := by
  obtain _ | ⟨hscope, -⟩ := h
  exact hscope

theorem outer (h : c.AgreeOn names d) : Scope.AllAgreeOn names c.outer d.outer := by
  obtain _ | ⟨-, houter⟩ := h
  exact houter

theorem enter (h : c.AgreeOn names d) : c.enter.AgreeOn names d.enter :=
  .cons (.refl ∅) h

theorem leave (h : c.AgreeOn names d) : c.leave.AgreeOn names d.leave := by
  have houter := h.outer
  rw [Chain.leave, Chain.leave]
  generalize c.outer = ss, d.outer = ts at houter
  cases houter with
  | nil => exact h
  | cons hs hrest => exact .cons hs hrest

/-- The scopes outside of a new one agree when it is left. -/
theorem leave_of_enter (h : c.enter.AgreeOn names d) : c.AgreeOn names d.leave := by
  have hleave := h.leave
  exact hleave

theorem define (h : c.AgreeOn names d) (name : String) (v : Value) :
    (c.define name v).AgreeOn names (d.define name v) :=
  .cons (h.scope.insert name v) h.outer

theorem define_of_notMem (hname : name ∉ names) (c : Chain) (v : Value) :
    c.AgreeOn names (c.define name v) :=
  .cons (.insert_of_notMem hname c.scope v) (Scope.AllAgreeOn.refl c.outer)

/-- Assigning some other name changes nothing of them. -/
theorem of_assign {name : Token} (hname : name.lexeme ∉ names) {v : Value}
    (h : c.assign name v = .ok d) : c.AgreeOn names d := by
  rcases Chain.assign_cases h with ⟨-, rfl⟩ | ⟨outer, houter, rfl⟩
  · exact .define_of_notMem hname c v
  · have hagree : Scope.AllAgreeOn names c.outer outer :=
      Chain.forall₂_of_rebind? .refl (fun s _ => .insert_of_notMem hname s v) houter
    exact .cons (.refl c.scope) hagree

end Chain.AgreeOn

/-! ### Expressions -/

/-- Where chains agree on the names that occur in an expression, it has
the same value. -/
theorem Chain.preserves_agreeOn : Chain.Preserves names (Chain.AgreeOn names) :=
  .of_scopes (fun hname h => Scope.AllAgreeOn.findSome? h hname) fun v hname h =>
    Scope.AllAgreeOn.rebind? h hname v

theorem assign_leads_agreeOn {name : Token} (hname : name.lexeme ∉ names) (v : Value) :
    Leads (Chain.AgreeOn names) (do
      let d ← liftExcept ((← get).assign name v)
      set d
      return v : Evaluation Value) := by
  intro c
  simp only [run_bind, run_get, run_liftExcept]
  cases h : c.assign name v with
  | error fault => exact .refl c
  | ok d =>
    simp only [run_set, run_pure]
    exact .of_assign hname h

/-- An expression keeps the bindings of the names that do not occur in
it. -/
theorem eval_leads_agreeOn : (e : Expr) → (∀ x ∈ e.names, x ∉ names) →
    Leads (Chain.AgreeOn names) (eval e)
  | .literal v, _ => .pure .refl v
  | .grouping e, h => eval_leads_agreeOn e h
  | .unary _ e, h => .bind .trans (eval_leads_agreeOn e h) fun _ => .lift .refl _
  | .binary left _ right, h => by
    rw [eval]
    obtain ⟨hleft, hright⟩ := List.forall_mem_append.mp h
    exact .bind .trans (eval_leads_agreeOn left hleft) fun _ =>
      .bind .trans (eval_leads_agreeOn right hright) fun _ => .lift .refl _
  | .logical left _ right, h => by
    rw [eval]
    obtain ⟨hleft, hright⟩ := List.forall_mem_append.mp h
    refine .bind .trans (eval_leads_agreeOn left hleft) fun v => ?_
    split
    · exact .pure .refl v
    · exact eval_leads_agreeOn right hright
  | .variable _, _ => .bind .trans .refl fun _ => .lift .refl _
  | .assign name e, h => by
    rw [eval]
    obtain ⟨hname, he⟩ := List.forall_mem_cons.mp h
    exact .bind .trans (eval_leads_agreeOn e he) (assign_leads_agreeOn hname)
  | .alien _, _ => .throw .refl _

/-! ### The same is done -/

/-- From two machines on, others have been come to: the scopes agree on
some names, and the same text has been printed. -/
structure Machine.Agree (names : Set String) (m₀ n₀ m n : Machine) : Prop where
  chain : m.chain.AgreeOn names n.chain
  printed : ∃ text, m.printed = m₀.printed ++ text ∧ n.printed = n₀.printed ++ text

variable {m₀ n₀ : Machine}

theorem Machine.Agree.print {m n : Machine} (h : Machine.Agree names m₀ n₀ m n) (text : String) :
    Machine.Agree names m₀ n₀ (m.print text) (n.print text) := by
  obtain ⟨hchain, before, hm, hn⟩ := h
  refine ⟨hchain, before ++ text ++ "\n", ?_, ?_⟩
  · rw [Machine.print, hm, String.append_assoc, String.append_assoc, String.append_assoc]
  · rw [Machine.print, hn, String.append_assoc, String.append_assoc, String.append_assoc]

theorem Machine.Agree.enter {m n : Machine} (h : Machine.Agree names m₀ n₀ m n) :
    Machine.Agree names m₀ n₀ m.enter n.enter := by
  refine ⟨?_, ?_⟩
  · rw [Machine.chain_enter, Machine.chain_enter]
    exact h.chain.enter
  · rw [Machine.printed_enter, Machine.printed_enter]
    exact h.printed

theorem Machine.Agree.leave {m n : Machine} (h : Machine.Agree names m₀ n₀ m n)
    (p q : Machine.Place) : Machine.Agree names m₀ n₀ (m.leave p) (n.leave q) := by
  refine ⟨?_, ?_⟩
  · rw [Machine.chain_leave, Machine.chain_leave]
    exact h.chain.leave
  · rw [Machine.printed_leave, Machine.printed_leave]
    exact h.printed

theorem Machine.preserves_agree : Machine.Preserves names (Machine.Agree names m₀ n₀) where
  evaluate e he m n h := by
    obtain ⟨hvalue, hchain⟩ := eval_matches Chain.preserves_agreeOn e he m.chain n.chain h.chain
    exact ⟨hvalue, hchain, h.printed⟩
  print text _ _ h := h.print text
  define {name} v _ _ _ h := ⟨h.chain.define name v, h.printed⟩
  inScope {body} hbody m n h := by
    obtain ⟨hresult, hstate⟩ := hbody _ _ h.enter
    rw [run_inScope, run_inScope]
    exact ⟨hresult, hstate.leave m.place n.place⟩

/-! ### The rest is kept -/

/-- Two machines agree on some names, scope by scope. -/
abbrev Machine.AgreeOn (names : Set String) (m n : Machine) : Prop :=
  m.chain.AgreeOn names n.chain

theorem evaluate_leads_agreeOn {e : Expr} (h : ∀ x ∈ e.names, x ∉ names) :
    Leads (Machine.AgreeOn names) (evaluate e) :=
  fun m => eval_leads_agreeOn e h m.chain

/-- What is kept in a new scope is kept when it is left. -/
theorem inScope_leads_agreeOn {body : Execution Unit} (h : Leads (Machine.AgreeOn names) body) :
    Leads (Machine.AgreeOn names) (inScope body) := by
  intro m
  have hbody : m.enter.chain.AgreeOn names _ := h m.enter
  rw [Machine.chain_enter] at hbody
  show m.chain.AgreeOn names ((inScope body).run.run m).2.chain
  rw [run_inScope, Machine.chain_leave]
  exact hbody.leave_of_enter

mutual

/-- A statement keeps the bindings of the names that do not occur in
it. -/
theorem exec_leads_agreeOn (rounds : Nat) : (s : Stmt) → (∀ x ∈ s.names, x ∉ names) →
    Leads (Machine.AgreeOn names) (exec rounds s)
  | .expression e, h => .bind .trans (evaluate_leads_agreeOn h) fun _ =>
      .pure (fun m => .refl m.chain) ()
  | .print keyword e, h => by
    rw [exec]
    refine .bind .trans (evaluate_leads_agreeOn h) fun v => ?_
    split
    · exact .throw (fun m => .refl m.chain) _
    · exact fun m => .refl m.chain
  | .var name e, h => by
    rw [exec]
    obtain ⟨hname, he⟩ := List.forall_mem_cons.mp h
    exact .bind .trans (evaluate_leads_agreeOn he) fun v m => .define_of_notMem hname m.chain v
  | .block body, h => by
    rw [exec]
    exact inScope_leads_agreeOn (execAll_leads_agreeOn rounds body h)
  | .ifThen condition consequent, h => by
    rw [exec]
    obtain ⟨hcondition, hconsequent⟩ := List.forall_mem_append.mp h
    refine .bind .trans (evaluate_leads_agreeOn hcondition) fun v => ?_
    split
    · exact exec_leads_agreeOn rounds consequent hconsequent
    · exact .pure (fun m => .refl m.chain) ()
  | .ifElse condition consequent alternative, h => by
    rw [exec]
    obtain ⟨hcondition, hbranches⟩ := List.forall_mem_append.mp h
    obtain ⟨hconsequent, halternative⟩ := List.forall_mem_append.mp hbranches
    refine .bind .trans (evaluate_leads_agreeOn hcondition) fun v => ?_
    split
    · exact exec_leads_agreeOn rounds consequent hconsequent
    · exact exec_leads_agreeOn rounds alternative halternative
  | .while condition body, h => by
    rw [exec]
    obtain ⟨hcondition, hbody⟩ := List.forall_mem_append.mp h
    exact repeatWhile_leads (fun m => .refl m.chain) .trans
      (evaluate_leads_agreeOn hcondition) (exec_leads_agreeOn rounds body hbody) rounds
  | .alien _, _ => .throw (fun m => .refl m.chain) _

theorem execAll_leads_agreeOn (rounds : Nat) :
    (ss : List Stmt) → (∀ x ∈ Stmt.allNames ss, x ∉ names) →
      Leads (Machine.AgreeOn names) (execAll rounds ss)
  | [], _ => .pure (fun m => .refl m.chain) ()
  | s :: rest, h => by
    rw [execAll]
    obtain ⟨hs, hrest⟩ := List.forall_mem_append.mp h
    exact .bind .trans (exec_leads_agreeOn rounds s hs) fun _ =>
      execAll_leads_agreeOn rounds rest hrest

end

/-! ### Statements -/

/-- Against scopes that agree on the names that occur in a statement,
one by one, the statement ends with the same result, however many rounds
its loops are given. It prints the same text, the scopes agree on those
names again, and all other names are bound in each scope as they
were. -/
theorem exec_agreeOn (rounds : Nat) (s : Stmt) {m n : Machine}
    (h : m.chain.AgreeOn {x | x ∈ s.names} n.chain) :
    let r := (exec rounds s).run.run m
    let q := (exec rounds s).run.run n
    r.1 = q.1 ∧
      (∃ text, r.2.printed = m.printed ++ text ∧ q.2.printed = n.printed ++ text) ∧
      r.2.chain.AgreeOn {x | x ∈ s.names} q.2.chain ∧
      m.chain.AgreeOn {x | x ∉ s.names} r.2.chain ∧
      n.chain.AgreeOn {x | x ∉ s.names} q.2.chain := by
  intro r q
  have hstart : Machine.Agree {x | x ∈ s.names} m n m n := ⟨h, "", by simp, by simp⟩
  obtain ⟨hresult, hchain, hprinted⟩ :=
    exec_matches Machine.preserves_agree s (fun _ hx => hx) m n hstart
  have hkept : Leads (Machine.AgreeOn {x | x ∉ s.names}) (exec rounds s) :=
    exec_leads_agreeOn rounds s fun _ hx hother => hother hx
  exact ⟨hresult, hprinted, hchain, hkept m, hkept n⟩

/-- The loop `while (a) a = false;` does the same where `x` is bound as
well, and leaves it. -/
theorem exec_agreeOn_while :
    let a : Token := { kind := .identifier, lexeme := "a", line := 1 }
    let s : Stmt := .while (.variable a) (.expression (.assign a (.literal (.bool false))))
    let m : Machine := { chain := { scope := Std.TreeMap.insert ∅ "a" (.bool true) } }
    let n : Machine := { m with chain := m.chain.define "x" .nil }
    m.chain.AgreeOn {x | x ∈ s.names} n.chain ∧
      ((exec 2 s).run.run m).1 = ((exec 2 s).run.run n).1 ∧
      n.chain.AgreeOn {x | x ∉ s.names} ((exec 2 s).run.run n).2.chain := by
  intro a s m n
  have hx : "x" ∉ {x | x ∈ s.names} := by decide
  have hagree : m.chain.AgreeOn {x | x ∈ s.names} n.chain := .define_of_notMem hx m.chain .nil
  obtain ⟨hresult, -, -, -, hkept⟩ := exec_agreeOn 2 s hagree
  exact ⟨hagree, hresult, hkept⟩

end LoxLang
