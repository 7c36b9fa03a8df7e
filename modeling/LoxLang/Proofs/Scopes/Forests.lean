import LoxLang.ScopeTree
import LoxLang.Proofs.Execution.Names
import Mathlib.Data.Set.Card
import Mathlib.Logic.Relation

/-!
# `LoxLang.Proofs.Scopes.Forests`: what is seen from each scope of a forest

Scopes that lie in the same scope share it: what is assigned from one of
them is read from the others, unless a nearer scope binds the name. This
module says what each operation does for all scopes at once. The forest
may have been built in any way (`ScopeTree.Built`), and the scopes on
the way outward from one of them are described by the relation that the
links make, not by the path that is walked.

* `ScopeTree.LiesIn`: a scope lies directly in another one;
* `ScopeTree.IsNearest`: the nearest scope with a name;
* `ScopeTree.Rebinds`: one binding is changed and nothing else;
* `ScopeTree.mem_path_iff`, `ScopeTree.holder?_eq_some_iff`: the path
  is the way outward, and the holder of a name on it is the nearest;
* `ScopeTree.built_forest`: the laws of reading, assigning, binding and
  depth.
-/

set_option autoImplicit false

namespace LoxLang.ScopeTree

variable {t u : ScopeTree} {i j k p : Nat} {name other : String} {v w : Value}

/-! ### Forests -/

/-- A scope lies directly in another one. -/
def LiesIn (t : ScopeTree) (i p : Nat) : Prop :=
  t.enclosing? i = some p

/-- A forest that was built in some way: scopes are made on their own or
inside of others, and names are bound and assigned. -/
inductive Built : ScopeTree → Prop
  | empty : Built { nodes := #[] }
  | addRoot {t : ScopeTree} (h : Built t) : Built { nodes := t.nodes.push {} }
  | addChild {t : ScopeTree} {p : Nat} (h : Built t) (hp : p < t.nodes.size) :
      Built (t.addChild p)
  | define {t : ScopeTree} {i : Nat} {name : String} {v : Value} (h : Built t)
      (hi : i < t.nodes.size) : Built (t.define i name v)
  | assign {t u : ScopeTree} {i : Nat} {name : Token} {v : Value} (h : Built t)
      (hi : i < t.nodes.size) (hassign : t.assign i name v = .ok u) : Built u

/-- A name is bound in a scope or in one around it. -/
def Sees (t : ScopeTree) (i : Nat) (name : String) : Prop :=
  ∃ j, Relation.ReflTransGen t.LiesIn i j ∧ name ∈ t.scope j

/-- Of a scope and those around it, the nearest that binds a name. -/
structure IsNearest (t : ScopeTree) (name : String) (i j : Nat) : Prop where
  reached : Relation.ReflTransGen t.LiesIn i j
  bound : name ∈ t.scope j
  first : ∀ k, Relation.ReflTransGen t.LiesIn i k → Relation.TransGen t.LiesIn k j →
    name ∉ t.scope k

/-- A forest is another one with one name bound to a value in one
scope. -/
structure Rebinds (t : ScopeTree) (j : Nat) (name : String) (v : Value) (u : ScopeTree) :
    Prop where
  size : u.nodes.size = t.nodes.size
  liesIn : u.LiesIn = t.LiesIn
  scope : ∀ k other,
    (u.scope k)[other]? = if k = j ∧ other = name then some v else (t.scope k)[other]?

/-! ### Links -/

theorem liesIn_push {node : Node} :
    LiesIn { nodes := t.nodes.push node } i p ↔
      t.LiesIn i p ∨ i = t.nodes.size ∧ node.enclosing = some p := by
  simp only [LiesIn, enclosing?, Array.getElem?_push]
  split
  · next h => simp [h]
  · next h => simp [h]

theorem liesIn_define (i : Nat) (name : String) (v : Value) (t : ScopeTree) :
    (t.define i name v).LiesIn = t.LiesIn := by
  funext k p
  simp only [LiesIn, enclosing?, define, Array.getElem?_modify]
  split
  · cases t.nodes[k]? <;> rfl
  · rfl

/-- An assignment binds the name in its holder. -/
theorem assign_eq_ok_iff {name : Token} :
    t.assign i name v = .ok u ↔
      ∃ j, t.holder? i name.lexeme = some j ∧ u = t.define j name.lexeme v := by
  rw [assign]
  cases t.holder? i name.lexeme with
  | none => simp
  | some j => simp [eq_comm]

/-- A scope lies in one that was made before it. -/
theorem Built.lt (h : t.Built) (hlies : t.LiesIn i p) : p < i := by
  induction h generalizing i p with
  | empty => simp [LiesIn, enclosing?] at hlies
  | addRoot _ ih =>
    rcases liesIn_push.mp hlies with hlies | ⟨-, hnode⟩
    · exact ih hlies
    · cases hnode
  | addChild _ hp ih =>
    rcases liesIn_push.mp hlies with hlies | ⟨rfl, hnode⟩
    · exact ih hlies
    · cases hnode
      exact hp
  | define _ _ ih =>
    rw [liesIn_define] at hlies
    exact ih hlies
  | assign _ _ hassign ih =>
    obtain ⟨j, -, rfl⟩ := assign_eq_ok_iff.mp hassign
    rw [liesIn_define] at hlies
    exact ih hlies

theorem LiesIn.unique (h : t.LiesIn i p) (h' : t.LiesIn i k) : p = k :=
  Option.some.inj (h.symm.trans h')

/-- Around a scope are the one that it lies in and those around that. -/
theorem transGen_iff_of_liesIn (hlies : t.LiesIn i p) :
    Relation.TransGen t.LiesIn i j ↔ Relation.ReflTransGen t.LiesIn p j := by
  rw [Relation.TransGen.head'_iff]
  constructor
  · rintro ⟨q, hq, hqj⟩
    rwa [hlies.unique hq]
  · intro hpj
    exact ⟨p, hlies, hpj⟩

/-- A scope around another one was made before it. -/
theorem Built.lt_of_transGen (h : t.Built) (hij : Relation.TransGen t.LiesIn i j) : j < i := by
  induction hij with
  | single hlies => exact h.lt hlies
  | tail _ hlies ih => exact (h.lt hlies).trans ih

/-! ### The way outward -/

theorem path_eq_cons (t : ScopeTree) (i : Nat) : ∃ rest, t.path i = i :: rest := by
  rw [path]
  split
  · split <;> exact ⟨_, rfl⟩
  · exact ⟨_, rfl⟩

/-- The path of a scope goes on with that of the one it lies in. -/
theorem Built.path_of_liesIn (h : t.Built) (hlies : t.LiesIn i p) : t.path i = i :: t.path p := by
  have hlt := h.lt hlies
  rw [path, show t.enclosing? i = some p from hlies]
  exact if_pos hlt

theorem path_of_outermost (h : t.enclosing? i = none) : t.path i = [i] := by
  rw [path, h]

/-- The path of a scope consists of the scope and those around it. -/
theorem Built.mem_path_iff (h : t.Built) :
    j ∈ t.path i ↔ Relation.ReflTransGen t.LiesIn i j := by
  induction i using Nat.strongRecOn generalizing j with
  | ind i ih =>
    rw [Relation.ReflTransGen.cases_head_iff]
    cases hp : t.enclosing? i with
    | none => simp [path_of_outermost hp, LiesIn, hp, eq_comm]
    | some p =>
      have hlies : t.LiesIn i p := hp
      rw [h.path_of_liesIn hlies, List.mem_cons, ih p (h.lt hlies), eq_comm]
      constructor
      · rintro (rfl | hpj)
        · exact .inl rfl
        · exact .inr ⟨p, hlies, hpj⟩
      · rintro (rfl | ⟨q, hq, hqj⟩)
        · exact .inl rfl
        · rw [hlies.unique hq]
          exact .inr hqj

/-- The depth of a scope is the number of scopes around it. -/
theorem Built.depth_eq (h : t.Built) :
    t.depth i = {j | Relation.TransGen t.LiesIn i j}.ncard := by
  induction i using Nat.strongRecOn with
  | ind i ih =>
    cases hp : t.enclosing? i with
    | none =>
      have hnone : {j | Relation.TransGen t.LiesIn i j} = ∅ := by
        ext j
        simp [Relation.TransGen.head'_iff, LiesIn, hp]
      rw [hnone, Set.ncard_empty, depth, path_of_outermost hp]
      rfl
    | some p =>
      have hlies : t.LiesIn i p := hp
      -- one more scope is around it than around the one that it lies in
      have hsome : {j | Relation.TransGen t.LiesIn i j} =
          insert p {j | Relation.TransGen t.LiesIn p j} := by
        ext j
        exact (transGen_iff_of_liesIn hlies).trans Relation.reflTransGen_iff_eq_or_transGen
      have hp : p ∉ {j | Relation.TransGen t.LiesIn p j} := fun hpp =>
        (h.lt_of_transGen hpp).false
      have hfinite : {j | Relation.TransGen t.LiesIn p j}.Finite :=
        (Set.finite_lt_nat p).subset fun j => h.lt_of_transGen
      rw [hsome, Set.ncard_insert_of_notMem hp hfinite, ← ih p (h.lt hlies), depth,
        h.path_of_liesIn hlies, depth]
      obtain ⟨rest, hrest⟩ := t.path_eq_cons p
      simp [hrest]

/-! ### Holders -/

theorem holder?_of_mem (hname : name ∈ t.scope i) : t.holder? i name = some i := by
  obtain ⟨rest, hpath⟩ := t.path_eq_cons i
  rw [holder?, hpath, List.find?_cons_of_pos (by simpa using hname)]

theorem Built.holder?_of_liesIn (h : t.Built) (hlies : t.LiesIn i p) (hname : name ∉ t.scope i) :
    t.holder? i name = t.holder? p name := by
  rw [holder?, h.path_of_liesIn hlies, List.find?_cons_of_neg (by simpa using hname), holder?]

theorem holder?_of_outermost (h : t.enclosing? i = none) (hname : name ∉ t.scope i) :
    t.holder? i name = none := by
  rw [holder?, path_of_outermost h, List.find?_cons_of_neg (by simpa using hname), List.find?_nil]

/-- Around a scope without the name, the nearest is that of the scope
that it lies in. -/
theorem isNearest_of_liesIn (hlies : t.LiesIn i p) (hname : name ∉ t.scope i) :
    t.IsNearest name i j ↔ t.IsNearest name p j := by
  constructor
  · intro hj
    rcases Relation.ReflTransGen.cases_head hj.reached with rfl | ⟨q, hq, hqj⟩
    · exact (hname hj.bound).elim
    · rw [← hlies.unique hq] at hqj
      exact ⟨hqj, hj.bound, fun k hpk => hj.first k (.head hlies hpk)⟩
  · intro hj
    refine ⟨.head hlies hj.reached, hj.bound, fun k hik hkj => ?_⟩
    rcases Relation.ReflTransGen.cases_head hik with rfl | ⟨q, hq, hqk⟩
    · exact hname
    · rw [← hlies.unique hq] at hqk
      exact hj.first k hqk hkj

/-- The holder of a name is the nearest scope that has it. -/
theorem Built.holder?_eq_some_iff (h : t.Built) :
    t.holder? i name = some j ↔ t.IsNearest name i j := by
  induction i using Nat.strongRecOn with
  | ind i ih =>
    by_cases hname : name ∈ t.scope i
    · -- the scope itself is the nearest, since there is no way back to it
      rw [holder?_of_mem hname]
      constructor
      · rintro ⟨⟩
        refine ⟨.refl, hname, fun k hik hki => ?_⟩
        exact ((h.lt_of_transGen (.trans_right hik hki)).false).elim
      · intro hj
        rcases Relation.reflTransGen_iff_eq_or_transGen.mp hj.reached with rfl | hij
        · rfl
        · exact (hj.first i .refl hij hname).elim
    · cases hp : t.enclosing? i with
      | some p =>
        have hlies : t.LiesIn i p := hp
        rw [h.holder?_of_liesIn hlies hname, ih p (h.lt hlies), isNearest_of_liesIn hlies hname]
      | none =>
        rw [holder?_of_outermost hp hname]
        constructor
        · rintro ⟨⟩
        · intro hj
          rcases Relation.ReflTransGen.cases_head hj.reached with rfl | ⟨q, hq, -⟩
          · exact (hname hj.bound).elim
          · cases hp.symm.trans hq

/-- A name is held for a scope exactly if it is seen from there. -/
theorem Built.isSome_holder?_iff (h : t.Built) :
    (t.holder? i name).isSome ↔ t.Sees i name := by
  simp [holder?, h.mem_path_iff, Sees]

theorem Built.sees_iff (h : t.Built) : t.Sees i name ↔ ∃ j, t.IsNearest name i j := by
  rw [← h.isSome_holder?_iff, Option.isSome_iff_exists]
  simp only [h.holder?_eq_some_iff]

/-! ### Reading -/

theorem lt_size_of_mem (hname : name ∈ t.scope i) : i < t.nodes.size := by
  by_contra hi
  simp [scope, Array.getElem?_eq_none (Nat.le_of_not_lt hi)] at hname

theorem mem_scope_iff : name ∈ t.scope i ↔ ((t.scope i)[name]?).isSome :=
  Std.TreeMap.mem_iff_isSome_getElem?

theorem get_eq_ok_iff {name : Token} : t.get i name = .ok w ↔ t.get? i name.lexeme = some w := by
  rw [get]
  cases t.get? i name.lexeme <;> simp

/-- What is read is the value in the nearest scope that has the name. -/
theorem Built.get?_eq_some_iff (h : t.Built) :
    t.get? i name = some w ↔ ∃ j, t.IsNearest name i j ∧ (t.scope j)[name]? = some w := by
  simp only [get?, Option.bind_eq_some_iff, h.holder?_eq_some_iff]

theorem Built.isSome_get?_iff (h : t.Built) : (t.get? i name).isSome ↔ t.Sees i name := by
  rw [h.sees_iff, Option.isSome_iff_exists]
  simp only [h.get?_eq_some_iff]
  constructor
  · rintro ⟨_, j, hj, -⟩
    exact ⟨j, hj⟩
  · rintro ⟨j, hj⟩
    obtain ⟨w, hw⟩ := Option.isSome_iff_exists.mp (mem_scope_iff.mp hj.bound)
    exact ⟨w, j, hj, hw⟩

/-! ### One binding changed -/

theorem rebinds_define (hi : i < t.nodes.size) (name : String) (v : Value) :
    t.Rebinds i name v (t.define i name v) where
  size := by simp [define]
  liesIn := liesIn_define i name v t
  scope k other := by
    simp only [ScopeTree.scope, define, Array.getElem?_modify]
    by_cases hk : i = k
    · subst hk
      simp [Array.getElem?_eq_getElem hi, Std.TreeMap.getElem?_insert,
        Std.LawfulEqCmp.compare_eq_iff_eq, @eq_comm _ name]
    · simp [hk, Ne.symm hk]

theorem path_congr (h : u.LiesIn = t.LiesIn) : u.path i = t.path i := by
  induction i using Nat.strongRecOn with
  | ind i ih =>
    have hi : u.enclosing? i = t.enclosing? i := by
      ext p
      exact iff_of_eq (congrFun (congrFun h i) p)
    rw [path, path, hi]
    split
    · next p _ =>
      split
      · next hlt => rw [ih p hlt]
      · rfl
    · rfl

namespace Rebinds

theorem mem_scope_iff (h : t.Rebinds j name v u) (hname : name ∈ t.scope j) :
    other ∈ u.scope k ↔ other ∈ t.scope k := by
  rw [ScopeTree.mem_scope_iff, ScopeTree.mem_scope_iff, h.scope]
  split
  · next hk =>
    obtain ⟨rfl, rfl⟩ := hk
    simpa using ScopeTree.mem_scope_iff.mp hname
  · rfl

/-- A binding that was there before is still the nearest where it was,
and no other one has become the nearest. -/
theorem holder?_eq (h : t.Rebinds j name v u) (hname : name ∈ t.scope j) :
    u.holder? k other = t.holder? k other := by
  simp only [holder?, path_congr h.liesIn, h.mem_scope_iff hname]

/-- The new value is read from where the binding is the nearest, and all
else is read as before. -/
theorem get?_eq (h : t.Rebinds j name v u) (hname : name ∈ t.scope j) (k : Nat)
    (other : String) :
    u.get? k other =
      if other = name ∧ t.holder? k other = some j then some v else t.get? k other := by
  rw [get?, get?, h.holder?_eq hname]
  cases hholder : t.holder? k other with
  | none => simp
  | some l =>
    simp only [Option.bind_some, h.scope, Option.some.injEq]
    grind

end Rebinds

/-! ### Tokens -/

section Tokens

variable {name other : Token}

theorem Built.exists_assign_iff (h : t.Built) :
    (∃ u, t.assign i name v = .ok u) ↔ t.Sees i name.lexeme := by
  rw [← h.isSome_holder?_iff, Option.isSome_iff_exists]
  simp only [assign_eq_ok_iff]
  constructor
  · rintro ⟨_, j, hj, -⟩
    exact ⟨j, hj⟩
  · rintro ⟨j, hj⟩
    exact ⟨_, j, hj, rfl⟩

/-- A name that is not seen can be neither read nor assigned. -/
theorem Built.fails_of_not_sees (h : t.Built) (hname : ¬ t.Sees i name.lexeme) :
    t.get i name = .error (.undefined name) ∧
      t.assign i name v = .error (.unassignable name) := by
  have hget : t.get? i name.lexeme = none := by
    rwa [← Option.not_isSome_iff_eq_none, h.isSome_get?_iff]
  have hholder : t.holder? i name.lexeme = none := by
    rwa [← Option.not_isSome_iff_eq_none, h.isSome_holder?_iff]
  rw [ScopeTree.get, ScopeTree.assign, hget, hholder]
  exact ⟨rfl, rfl⟩

/-- An assignment changes the nearest binding. -/
theorem Built.rebinds_of_assign (h : t.Built) (hassign : t.assign i name v = .ok u) :
    ∃ j, t.IsNearest name.lexeme i j ∧ t.Rebinds j name.lexeme v u := by
  obtain ⟨j, hholder, rfl⟩ := assign_eq_ok_iff.mp hassign
  have hj := h.holder?_eq_some_iff.mp hholder
  exact ⟨j, hj, rebinds_define (lt_size_of_mem hj.bound) name.lexeme v⟩

/-- What is read when a binding has changed. -/
theorem Built.get_of_rebinds (h : t.Built) (hrebinds : t.Rebinds j name.lexeme v u)
    (hbound : name.lexeme ∈ t.scope j) :
    (other.lexeme = name.lexeme ∧ t.IsNearest name.lexeme k j → u.get k other = .ok v) ∧
      (¬ (other.lexeme = name.lexeme ∧ t.IsNearest name.lexeme k j) →
        u.get k other = t.get k other) := by
  have hget := hrebinds.get?_eq hbound k other.lexeme
  constructor
  · rintro ⟨hother, hk⟩
    rw [← hother, ← h.holder?_eq_some_iff] at hk
    rw [if_pos ⟨hother, hk⟩] at hget
    rw [ScopeTree.get, hget]
  · intro hnot
    rw [if_neg] at hget
    · rw [ScopeTree.get, ScopeTree.get, hget]
    · rintro ⟨hother, hk⟩
      rw [hother, h.holder?_eq_some_iff] at hk
      exact hnot ⟨hother, hk⟩

end Tokens

/-! ### The laws -/

/-- In a forest that was built in any way, for each of its scopes and
each name: reading, assigning and asking for the name succeed if it is
bound in the scope or in one around it, and else reading and assigning
fail at the name. What is read is the nearest binding. An assignment
changes the nearest binding and nothing else in the forest: the new
value is read from just the scopes for which that is the nearest, and
whatever else is read from anywhere stays as it was. Binding a name
changes it in the scope itself and nothing else. The depth of the scope
is the number of scopes around it. -/
theorem built_forest (h : t.Built) (hi : i < t.nodes.size) (name : Token) (v : Value) :
    ((∃ w, t.get i name = .ok w) ↔ t.Sees i name.lexeme) ∧
      ((∃ u, t.assign i name v = .ok u) ↔ t.Sees i name.lexeme) ∧
      (t.contains i name.lexeme = true ↔ t.Sees i name.lexeme) ∧
      (¬ t.Sees i name.lexeme →
        t.get i name = .error (.undefined name) ∧
          t.assign i name v = .error (.unassignable name)) ∧
      (∀ w, t.get i name = .ok w ↔
        ∃ j, t.IsNearest name.lexeme i j ∧ (t.scope j)[name.lexeme]? = some w) ∧
      (∀ u, t.assign i name v = .ok u →
        ∃ j, t.IsNearest name.lexeme i j ∧ t.Rebinds j name.lexeme v u ∧
          ∀ k other,
            (other.lexeme = name.lexeme ∧ t.IsNearest name.lexeme k j → u.get k other = .ok v) ∧
            (¬ (other.lexeme = name.lexeme ∧ t.IsNearest name.lexeme k j) →
              u.get k other = t.get k other)) ∧
      t.Rebinds i name.lexeme v (t.define i name.lexeme v) ∧
      t.depth i = {j | Relation.TransGen t.LiesIn i j}.ncard := by
  refine ⟨?_, h.exists_assign_iff, h.isSome_holder?_iff, h.fails_of_not_sees, ?_, ?_,
    rebinds_define hi name.lexeme v, h.depth_eq⟩
  · simp only [get_eq_ok_iff, ← Option.isSome_iff_exists, h.isSome_get?_iff]
  · intro w
    rw [get_eq_ok_iff, h.get?_eq_some_iff]
  · intro u hassign
    obtain ⟨j, hj, hrebinds⟩ := h.rebinds_of_assign hassign
    exact ⟨j, hj, hrebinds, fun k other => h.get_of_rebinds hrebinds hj.bound⟩

/-- Two scopes lie in one that binds `a`: what is assigned to it from the
first is read from the second. -/
theorem built_forest_siblings :
    let a : Token := { kind := .identifier, lexeme := "a", line := 1 }
    let t := ((root.addChild 0).addChild 0).define 0 "a" (.bool true)
    t.Built ∧ 1 < t.nodes.size ∧
      ∃ u, t.assign 1 a (.bool false) = .ok u ∧ u.get 2 a = .ok (.bool false) := by
  intro a t
  have hbuilt : t.Built :=
    .define (.addChild (.addChild (.addRoot .empty) (by decide)) (by decide)) (by decide)
  have hsize : 1 < t.nodes.size := by decide
  have hholder₁ : t.holder? 1 "a" = some 0 := by decide +kernel
  have hholder₂ : t.holder? 2 "a" = some 0 := by decide +kernel
  have hnear := hbuilt.holder?_eq_some_iff.mp hholder₁
  obtain ⟨-, hassign, -, -, -, hchanges, -, -⟩ := built_forest hbuilt hsize a (.bool false)
  obtain ⟨u, hu⟩ := hassign.mpr (hbuilt.sees_iff.mpr ⟨0, hnear⟩)
  obtain ⟨j, hj, -, hread⟩ := hchanges u hu
  have hzero : some j = some 0 := (hbuilt.holder?_eq_some_iff.mpr hj).symm.trans hholder₁
  cases hzero
  have hshared := hbuilt.holder?_eq_some_iff.mp hholder₂
  exact ⟨hbuilt, hsize, u, hu, (hread 2 a).1 ⟨rfl, hshared⟩⟩

end LoxLang.ScopeTree
