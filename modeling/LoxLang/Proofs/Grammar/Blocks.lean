import LoxLang.Proofs.Grammar.Parts
import LoxLang.Proofs.Grammar.TreeTokens

/-!
# `LoxLang.Proofs.Grammar.Blocks`: open blocks are a count of braces

Braces stand around the statements of a block and nowhere else. So a
statement has as many closing braces as opening ones, and where reading
stops inside of blocks, the tokens in front of that place have one
opening brace more for each of them.

* `Stmt.StopsIn`: reading a statement fails while some blocks are open;
* `Token.surplus`: how many more opening than closing braces there are;
* `Stmt.deepens_read`: a statement that is read is balanced;
* `Stmt.StopsIn.deepens`: where reading stops, the surplus is the number
  of open blocks.
-/

set_option autoImplicit false

namespace LoxLang

/-! ### Where reading stops -/

mutual

/-- Reading a statement fails while so many blocks in it are open. -/
inductive Stmt.StopsIn (f : Failure) : Nat → List Token → Prop where
  | clause {ts : List Token} (h : Stmt.ClauseFails f ts) : StopsIn f 0 ts
  | block {t : Token} {ts : List Token} {n : Nat} (ht : t.kind = .leftBrace)
      (h : Stmt.BlockStopsIn f n ts) : StopsIn f (n + 1) (t :: ts)
  | headed {ts rest : List Token} {n : Nat} (hheads : Stmt.Heads ts rest)
      (h : StopsIn f n rest) : StopsIn f n ts

/-- Reading what is behind the opening brace of a block fails while so
many blocks in it are open, the block itself not counted. -/
inductive Stmt.BlockStopsIn (f : Failure) : Nat → List Token → Prop where
  | closing (hf : f = .missing "'\x7d' after block" []) : BlockStopsIn f 0 []
  | first {t : Token} {ts : List Token} {n : Nat} (ht : t.kind ≠ .rightBrace)
      (h : Stmt.StopsIn f n (t :: ts)) : BlockStopsIn f n (t :: ts)
  | others {t : Token} {ts rest : List Token} {n : Nat} {s : Stmt} (ht : t.kind ≠ .rightBrace)
      (hread : plain Stmt.read (t :: ts) = .ok (s, rest)) (h : BlockStopsIn f n rest) :
      BlockStopsIn f n (t :: ts)

end

/-- Reading statements up to the end fails while so many blocks are
open. -/
inductive Stmt.AllStopsIn (f : Failure) : Nat → List Token → Prop where
  | first {t : Token} {ts : List Token} {n : Nat} (h : Stmt.StopsIn f n (t :: ts)) :
      AllStopsIn f n (t :: ts)
  | others {t : Token} {ts rest : List Token} {n : Nat} {s : Stmt}
      (hread : plain Stmt.read (t :: ts) = .ok (s, rest)) (h : AllStopsIn f n rest) :
      AllStopsIn f n (t :: ts)

variable {f : Failure}

-- By recursion on the number of tokens.
mutual

theorem Stmt.exists_stopsIn {ts : List Token} (hread : plain Stmt.read ts = .error f) :
    ∃ n, Stmt.StopsIn f n ts := by
  have hreads := Stmt.readsAs ts
  generalize plain Stmt.read ts = x at hreads hread
  cases hreads with
  | clause => cases hread
  | fails h =>
    cases hread
    exact ⟨0, .clause h⟩
  | block ht =>
    rcases andThen_eq_error_iff.mp hread with hblock | ⟨_, _, _, ⟨⟩⟩
    obtain ⟨n, h⟩ := Stmt.exists_blockStopsIn hblock
    exact ⟨n + 1, .block ht h⟩
  | headed whole hheads =>
    have := hheads.length_lt
    rcases andThen_eq_error_iff.mp hread with hlast | ⟨_, _, _, ⟨⟩⟩
    obtain ⟨n, h⟩ := Stmt.exists_stopsIn hlast
    exact ⟨n, .headed hheads h⟩
termination_by 2 * ts.length

theorem Stmt.exists_blockStopsIn {ts : List Token} (hread : plain Stmt.readBlock ts = .error f) :
    ∃ n, Stmt.BlockStopsIn f n ts := by
  rw [Stmt.plain_readBlock] at hread
  split at hread
  · cases hread
    exact ⟨0, .closing rfl⟩
  · next t ts =>
    split at hread
    · cases hread
    · next ht =>
      rcases andThen_eq_error_iff.mp hread with hfirst | ⟨first, rest, hfirst, h⟩
      · obtain ⟨n, h⟩ := Stmt.exists_stopsIn hfirst
        exact ⟨n, .first ht h⟩
      · have := length_lt_of_plain hfirst
        rcases andThen_eq_error_iff.mp h with hothers | ⟨_, _, _, ⟨⟩⟩
        obtain ⟨n, h⟩ := Stmt.exists_blockStopsIn hothers
        exact ⟨n, .others ht hfirst h⟩
termination_by 2 * ts.length + 1

end

theorem Stmt.exists_allStopsIn {ts : List Token} (hread : Stmt.readAll ts = .error f) :
    ∃ n, Stmt.AllStopsIn f n ts := by
  cases ts with
  | nil =>
    rw [Stmt.readAll_nil] at hread
    cases hread
  | cons t ts =>
    rcases Stmt.readAll_cons_eq_error_iff.mp hread with hfirst | ⟨first, rest, hfirst, hothers⟩
    · obtain ⟨n, h⟩ := Stmt.exists_stopsIn hfirst
      exact ⟨n, .first h⟩
    · have := length_lt_of_plain hfirst
      obtain ⟨n, h⟩ := Stmt.exists_allStopsIn hothers
      exact ⟨n, .others hfirst h⟩
termination_by ts.length

theorem Stmt.ClauseFails.plain_read {ts : List Token} (h : Stmt.ClauseFails f ts) :
    plain Stmt.read ts = .error f := by
  cases h with
  | print ht h | var ht h => rw [Stmt.plain_read, ht]; exact h
  | «if» ht h =>
    rw [Stmt.plain_read, ht]
    simp only
    rw [Stmt.plain_readIf, h, andThen_error]
  | «while» ht h =>
    rw [Stmt.plain_read, ht]
    simp only
    rw [Stmt.plain_readWhile, h, andThen_error]
  | «for» ht h =>
    rw [Stmt.plain_read, ht]
    simp only
    rw [Stmt.plain_readFor, h, andThen_error]
  | expression hts h =>
    cases ts with
    | nil => rw [Stmt.plain_read_nil, ← Stmt.plain_readExpression_nil, h]
    | cons t ts =>
      -- no other statement begins with such a token
      have hkinds : t.kind ∉ Token.Kind.var :: Stmt.openers := by
        simpa [front?_cons] using hts
      rw [Stmt.plain_read]
      split
      case h_7 => exact h
      all_goals
        next ht =>
          rw [ht] at hkinds
          exact absurd (by decide) hkinds

theorem Stmt.Heads.plain_read {ts rest : List Token} (hheads : Stmt.Heads ts rest)
    (h : plain Stmt.read rest = .error f) : plain Stmt.read ts = .error f := by
  cases hheads with
  | «if» ht hread =>
    rw [Stmt.plain_read, ht]
    simp only
    rw [Stmt.plain_readIf, hread, andThen_ok, h, andThen_error]
  | «else» ht hread hconsequent hother =>
    rw [Stmt.plain_read, ht]
    simp only
    rw [Stmt.plain_readIf, hread, andThen_ok, hconsequent, andThen_ok, hother]
    simp only
    rw [h, andThen_error]
  | «while» ht hread =>
    rw [Stmt.plain_read, ht]
    simp only
    rw [Stmt.plain_readWhile, hread, andThen_ok, h, andThen_error]
  | «for» ht hread =>
    rw [Stmt.plain_read, ht]
    simp only
    rw [Stmt.plain_readFor, hread, andThen_ok, h, andThen_error]

mutual

theorem Stmt.StopsIn.plain_read {ts : List Token} {n : Nat} :
    Stmt.StopsIn f n ts → plain Stmt.read ts = .error f
  | .clause h => h.plain_read
  | .block ht h => by
    rw [Stmt.plain_read, ht]
    simp only
    rw [h.plain_readBlock, andThen_error]
  | .headed hheads h => hheads.plain_read h.plain_read

theorem Stmt.BlockStopsIn.plain_readBlock {ts : List Token} {n : Nat} :
    Stmt.BlockStopsIn f n ts → plain Stmt.readBlock ts = .error f
  | .closing hf => by rw [Stmt.plain_readBlock, hf]
  | .first ht h => by
    rw [Stmt.plain_readBlock]
    simp only [ht, if_false]
    rw [h.plain_read, andThen_error]
  | .others ht hread h => by
    rw [Stmt.plain_readBlock]
    simp only [ht, if_false]
    rw [hread, andThen_ok, h.plain_readBlock, andThen_error]

end

/-- What is derived of where reading stops is what becomes of it. -/
theorem Stmt.AllStopsIn.readAll {ts : List Token} {n : Nat} (h : Stmt.AllStopsIn f n ts) :
    Stmt.readAll ts = .error f := by
  induction h with
  | first h => exact Stmt.readAll_cons_eq_error_iff.mpr (.inl h.plain_read)
  | others hread _ ih => exact Stmt.readAll_cons_eq_error_iff.mpr (.inr ⟨_, _, hread, ih⟩)

/-! ### Braces -/

/-- How many more opening than closing braces there are. -/
def Token.surplus (ts : List Token) : Int :=
  ts.countP (·.kind = .leftBrace) - ts.countP (·.kind = .rightBrace)

@[simp] theorem Token.surplus_nil : Token.surplus [] = 0 := rfl

@[simp] theorem Token.surplus_append (ts us : List Token) :
    Token.surplus (ts ++ us) = Token.surplus ts + Token.surplus us := by
  simp only [Token.surplus, List.countP_append]
  omega

theorem Token.surplus_eq_zero {ts : List Token}
    (h : ∀ t ∈ ts, t.kind ≠ .leftBrace ∧ t.kind ≠ .rightBrace) : Token.surplus ts = 0 := by
  have hopening : ts.countP (·.kind = .leftBrace) = 0 := by
    rw [List.countP_eq_zero]
    intro t ht
    simpa using (h t ht).1
  have hclosing : ts.countP (·.kind = .rightBrace) = 0 := by
    rw [List.countP_eq_zero]
    intro t ht
    simpa using (h t ht).2
  rw [Token.surplus, hopening, hclosing]
  rfl

/-- The tokens that are taken lead so many blocks deeper. -/
def Deepens (n : Int) (ts rest : List Token) : Prop :=
  ∃ taken, ts = taken ++ rest ∧ Token.surplus taken = n

namespace Deepens

variable {m n : Int} {t : Token} {ts us rest : List Token}

theorem trans (h : Deepens m ts us) (h' : Deepens n us rest) : Deepens (m + n) ts rest := by
  obtain ⟨taken, rfl, rfl⟩ := h
  obtain ⟨taken', rfl, rfl⟩ := h'
  exact ⟨taken ++ taken', by simp, by simp⟩

theorem opening (ht : t.kind = .leftBrace) (rest : List Token) : Deepens 1 (t :: rest) rest :=
  ⟨[t], rfl, by simp [Token.surplus, ht]⟩

theorem closing (ht : t.kind = .rightBrace) (rest : List Token) : Deepens (-1) (t :: rest) rest :=
  ⟨[t], rfl, by simp [Token.surplus, ht]⟩

/-- Tokens of other kinds lead no deeper. -/
theorem of_takes {kinds : List Token.Kind} (h : Takes kinds ts rest)
    (hopening : .leftBrace ∉ kinds) (hclosing : .rightBrace ∉ kinds) : Deepens 0 ts rest := by
  obtain ⟨taken, rfl, hkinds⟩ := h
  refine ⟨taken, rfl, Token.surplus_eq_zero fun t ht => ⟨?_, ?_⟩⟩
  · rintro hkind
    exact hopening (hkind ▸ hkinds t ht)
  · rintro hkind
    exact hclosing (hkind ▸ hkinds t ht)

theorem of_kind {kind : Token.Kind} (ht : t.kind = kind) (hopening : kind ≠ .leftBrace)
    (hclosing : kind ≠ .rightBrace) (rest : List Token) : Deepens 0 (t :: rest) rest := by
  have htakes : Takes [kind] (t :: rest) rest := .cons (by simp [ht]) rest
  exact .of_takes htakes (by simpa using hopening.symm) (by simpa using hclosing.symm)

end Deepens

/-! ### Statements -/

variable {ts rest : List Token} {n : Nat}

/-- A clause that is read leads no deeper. -/
theorem Stays.deepens {α : Type} {a : α} (h : Stays Stmt.clauseKinds ts (.ok (a, rest))) :
    Deepens 0 ts rest := by
  obtain ⟨htakes⟩ := h
  exact .of_takes htakes (by decide) (by decide)

/-- A clause that fails leads no deeper. -/
theorem Stays.deepens_rest {α : Type} (h : Stays Stmt.clauseKinds ts (.error f : Answer α)) :
    Deepens 0 ts f.rest := by
  cases h with
  | error hwithin => exact .of_takes hwithin.takes (by decide) (by decide)

/-- What stands in front of the last part of a statement leads no deeper
if the shorter statements do not. -/
theorem Stmt.Heads.deepens_of (h : Stmt.Heads ts rest)
    (hparts : ∀ us us' s, us.length < ts.length → plain Stmt.read us = .ok (s, us') →
      Deepens 0 us us') : Deepens 0 ts rest := by
  cases h with
  | @«if» _ us _ _ ht hread =>
    have hcondition := (hread ▸ Expr.stays_readCondition _ _ us).deepens
    exact (Deepens.of_kind ht (by decide) (by decide) us).trans hcondition
  | @«while» _ us _ _ ht hread =>
    have hcondition := (hread ▸ Expr.stays_readCondition _ _ us).deepens
    exact (Deepens.of_kind ht (by decide) (by decide) us).trans hcondition
  | @«for» _ us _ _ ht hread =>
    have hclauses := (hread ▸ ForClauses.stays_read us).deepens
    exact (Deepens.of_kind ht (by decide) (by decide) us).trans hclauses
  | @«else» _ other us rest₁ rest₂ _ _ _ ht hread hconsequent hother =>
    have := length_lt_of_plain hread
    have hcondition := (hread ▸ Expr.stays_readCondition _ _ us).deepens
    have hconsequent' := hparts _ _ _ (by simp only [List.length_cons]; omega) hconsequent
    obtain ⟨rfl, hkind⟩ := front?_eq_some_iff.mp hother
    have hother' := Deepens.of_kind (List.mem_singleton.mp hkind) (by decide) (by decide) rest
    exact (((Deepens.of_kind ht (by decide) (by decide) us).trans hcondition).trans
      hconsequent').trans hother'

-- By recursion on the number of tokens.
mutual

/-- A statement that is read has as many closing as opening braces. -/
theorem Stmt.deepens_read {ts rest : List Token} {s : Stmt}
    (hread : plain Stmt.read ts = .ok (s, rest)) : Deepens 0 ts rest := by
  have hreads := Stmt.readsAs ts
  generalize plain Stmt.read ts = x at hreads hread
  cases hreads with
  | clause htakes =>
    cases hread
    exact .of_takes htakes (by decide) (by decide)
  | fails => cases hread
  | block ht =>
    obtain ⟨body, rest', hbody, hr⟩ := andThen_eq_ok_iff.mp hread
    cases hr
    exact (Deepens.opening ht _).trans (Stmt.deepens_readBlock hbody)
  | headed whole hheads =>
    have := hheads.length_lt
    obtain ⟨last, rest', hlast, hr⟩ := andThen_eq_ok_iff.mp hread
    cases hr
    have hfront := hheads.deepens_of fun us us' s hlength hread => Stmt.deepens_read hread
    exact hfront.trans (Stmt.deepens_read hlast)
termination_by 2 * ts.length

/-- The closing brace of a block that is read leads out of it. -/
theorem Stmt.deepens_readBlock {ts rest : List Token} {body : List Stmt}
    (hread : plain Stmt.readBlock ts = .ok (body, rest)) : Deepens (-1) ts rest := by
  rw [Stmt.plain_readBlock] at hread
  split at hread
  · cases hread
  · next t ts =>
    split at hread
    · next ht =>
      cases hread
      exact .closing ht rest
    · obtain ⟨first, rest₁, hfirst, h⟩ := andThen_eq_ok_iff.mp hread
      have := length_lt_of_plain hfirst
      obtain ⟨others, rest₂, hothers, hr⟩ := andThen_eq_ok_iff.mp h
      cases hr
      exact (Stmt.deepens_read hfirst).trans (Stmt.deepens_readBlock hothers)
termination_by 2 * ts.length + 1

end

theorem Stmt.Heads.deepens (h : Stmt.Heads ts rest) : Deepens 0 ts rest :=
  h.deepens_of fun _ _ _ _ hread => Stmt.deepens_read hread

theorem Stmt.deepens_readAll {ts : List Token} {ss : List Stmt}
    (hread : Stmt.readAll ts = .ok ss) : Deepens 0 ts [] := by
  cases ts with
  | nil => exact ⟨[], rfl, rfl⟩
  | cons t ts =>
    obtain ⟨first, rest, others, hfirst, hothers, -⟩ := Stmt.readAll_cons_eq_ok_iff.mp hread
    have := length_lt_of_plain hfirst
    exact (Stmt.deepens_read hfirst).trans (Stmt.deepens_readAll hothers)
termination_by ts.length

/-! ### Open blocks -/

theorem Stmt.ClauseFails.deepens (h : Stmt.ClauseFails f ts) : Deepens 0 ts f.rest := by
  cases h with
  | @print t us ht h =>
    have hclause := (h ▸ Stmt.stays_readPrint t us).deepens_rest
    exact (Deepens.of_kind ht (by decide) (by decide) us).trans hclause
  | @var t us ht h =>
    have hclause := (h ▸ Stmt.stays_readVar us).deepens_rest
    exact (Deepens.of_kind ht (by decide) (by decide) us).trans hclause
  | @«if» t us ht h | @«while» t us ht h =>
    have hclause := (h ▸ Expr.stays_readCondition _ _ us).deepens_rest
    exact (Deepens.of_kind ht (by decide) (by decide) us).trans hclause
  | @«for» t us ht h =>
    have hclause := (h ▸ ForClauses.stays_read us).deepens_rest
    exact (Deepens.of_kind ht (by decide) (by decide) us).trans hclause
  | expression _ h => exact (h ▸ Stmt.stays_readExpression ts).deepens_rest

mutual

/-- Where reading stops, as many blocks are open as there are more
opening than closing braces in front. -/
theorem Stmt.StopsIn.deepens {ts : List Token} {n : Nat} :
    Stmt.StopsIn f n ts → Deepens n ts f.rest
  | .clause h => h.deepens
  | .block ht h => by
    have hblock := (Deepens.opening ht _).trans h.deepens
    rwa [Int.add_comm, ← Int.natCast_succ] at hblock
  | .headed hheads h => by
    have hlast := hheads.deepens.trans h.deepens
    rwa [Int.zero_add] at hlast

theorem Stmt.BlockStopsIn.deepens {ts : List Token} {n : Nat} :
    Stmt.BlockStopsIn f n ts → Deepens n ts f.rest
  | .closing hf => by
    rw [hf]
    exact ⟨[], rfl, rfl⟩
  | .first _ h => h.deepens
  | .others _ hread h => by
    have hothers := (Stmt.deepens_read hread).trans h.deepens
    rwa [Int.zero_add] at hothers

end

theorem Stmt.AllStopsIn.deepens (h : Stmt.AllStopsIn f n ts) : Deepens n ts f.rest := by
  induction h with
  | first h => exact h.deepens
  | others hread _ ih =>
    have hothers := (Stmt.deepens_read hread).trans ih
    rwa [Int.zero_add] at hothers

/-! ### Programs -/

/-- The tokens are no program, and where something else was expected so
many blocks were open. -/
def StopsWith (tokens : List Token) (m : Misplaced) (n : Nat) : Prop :=
  ∃ f, Stmt.AllStopsIn f n (bodyOf tokens) ∧ f.misplaced (endOf tokens) = m

/-- Where something else was expected, some number of blocks was open. -/
theorem program_eq_error_iff {tokens : List Token} {m : Misplaced} :
    program tokens = .error m ↔ ∃ n, StopsWith tokens m n := by
  rw [program]
  constructor
  · intro h
    cases hread : Stmt.readAll (bodyOf tokens) with
    | ok ss => rw [hread] at h; cases h
    | error f =>
      rw [hread] at h
      cases h
      obtain ⟨n, hstops⟩ := Stmt.exists_allStopsIn hread
      exact ⟨n, f, hstops, rfl⟩
  · rintro ⟨n, f, hstops, rfl⟩
    rw [hstops.readAll]
    rfl

theorem surplus_bodyOf_of_program {tokens : List Token} {ss : List Stmt}
    (h : program tokens = .ok ss) : Token.surplus (bodyOf tokens) = 0 := by
  obtain ⟨taken, htaken, hsurplus⟩ := Stmt.deepens_readAll (program_eq_ok_iff.mp h)
  rw [htaken, List.append_nil, hsurplus]

/-- Where reading stops at the end, no token is left. -/
theorem StopsWith.surplus_bodyOf {tokens : List Token} {m : Misplaced}
    (h : StopsWith tokens m n) (hm : m.found.kind = .eof) :
    Token.surplus (bodyOf tokens) = n := by
  obtain ⟨f, hstops, rfl⟩ := h
  have hrest : f.rest = [] := by
    cases Stmt.within_of_readAll hstops.readAll with
    | @missing expected rest htakes =>
      cases rest with
      | nil => rfl
      | cons t rest =>
        exact absurd hm (kind_of_mem_bodyOf (htakes.suffix.subset List.mem_cons_self))
    | target hequals => exact absurd hm (kind_of_mem_bodyOf hequals)
  obtain ⟨taken, htaken, hsurplus⟩ := hstops.deepens
  rw [htaken, hrest, List.append_nil, hsurplus]

end LoxLang
