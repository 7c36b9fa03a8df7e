import LoxLang.Proofs.Grammar.Procedures
import LoxLang.TokenCursor
import Mathlib.Logic.Function.Iterate
import Mathlib.Order.Monotone.Basic

/-!
# `LoxLang.Proofs.Grammar.Descent`: reading step by step

A `Descent` is a procedure in progress, the place of the cursor and the
calls that wait for the procedure's result. `Descent.step` does the next
thing that the procedure says. The cursor never moves back or past the
end, whatever the procedures do. That the reading ends, and with what
its reader answers, is by induction on the tokens that are left, the
level of the construct and its procedure.
-/

set_option autoImplicit false

namespace LoxLang

/-! ### Cursors -/

section Bodies

variable {tokens : List Token} {k : Nat}

/-- No token is an end that stands in front of the first one. -/
theorem kind_of_mem_take (h : k ≤ (bodyOf tokens).length) :
    ∀ t ∈ tokens.take k, t.kind ≠ .eof := by
  obtain ⟨rest, htokens, -⟩ := exists_bodyOf_append tokens
  rw [htokens, List.take_append_of_le_length h]
  exact fun t ht => kind_of_mem_bodyOf (List.mem_of_mem_take ht)

theorem bodyOf_drop (h : k ≤ (bodyOf tokens).length) :
    bodyOf (tokens.drop k) = (bodyOf tokens).drop k := by
  have hle : k ≤ tokens.length := h.trans (List.takeWhile_prefix _).length_le
  have hbody := bodyOf_append_of_forall (kind_of_mem_take h) (tokens.drop k)
  rw [List.take_append_drop] at hbody
  rw [hbody, List.drop_left' (List.length_take_of_le hle)]

theorem endOf_drop (h : k ≤ (bodyOf tokens).length) : endOf (tokens.drop k) = endOf tokens := by
  have hnone : (tokens.take k).find? (·.kind = .eof) = none :=
    List.find?_eq_none.mpr fun t ht => by simpa using kind_of_mem_take h t ht
  conv_rhs => rw [endOf, ← List.take_append_drop k tokens, List.find?_append, hnone]
  rfl

end Bodies

namespace TokenCursor

variable (c : TokenCursor) {t : Token} {rest : List Token} {kinds : List Token.Kind}

theorem peek_eq : c.peek = (bodyOf c.ahead).headD (endOf c.ahead) := by
  rw [peek]
  cases c.ahead with
  | nil => rfl
  | cons t rest => by_cases ht : t.kind = .eof <;> simp [bodyOf, endOf, ht]

theorem isAtEnd_eq : c.isAtEnd = (bodyOf c.ahead).isEmpty := by
  rw [isAtEnd, peek]
  cases c.ahead with
  | nil => rfl
  | cons t rest => by_cases ht : t.kind = .eof <;> simp [bodyOf, ht]

theorem check_eq (kinds : List Token.Kind) :
    c.check kinds = (front? kinds (bodyOf c.ahead)).isSome := by
  rw [check, isAtEnd_eq, peek_eq]
  cases bodyOf c.ahead with
  | nil => rfl
  | cons t rest => by_cases ht : t.kind ∈ kinds <;> simp [front?_cons, ht]

theorem accept_of_front?_none (h : front? kinds (bodyOf c.ahead) = none) :
    c.accept kinds = (false, c) := by
  rw [accept, check_eq, h]
  rfl

theorem accept_of_front? (h : front? kinds (bodyOf c.ahead) = some (t, rest)) :
    c.accept kinds = (true, c.skip 1) ∧ (c.skip 1).previous = t := by
  have hbody := (front?_eq_some_iff.mp h).1
  rw [accept, check_eq, h, advance, isAtEnd_eq, hbody]
  refine ⟨rfl, ?_⟩
  cases hahead : c.ahead with
  | nil => rw [hahead] at hbody; cases hbody
  | cons u tokens =>
    -- the body begins with the token ahead
    have hu : u = t := by
      rw [hahead, bodyOf, List.takeWhile_cons] at hbody
      split at hbody <;> cases hbody
      rfl
    simp [previous, skip, hahead, hu]

theorem skip_skip (m n : Nat) : (c.skip m).skip n = c.skip (m + n) := by
  simp [skip, List.take_add]

/-- Every token that is passed counts. -/
theorem position_skip {c : TokenCursor} {k : Nat} (h : k ≤ (bodyOf c.ahead).length) :
    (c.skip k).position = c.position + k := by
  have hle := (List.takeWhile_prefix (p := (·.kind ≠ .eof)) (l := c.ahead)).length_le
  have hk := h.trans hle
  simp [position, skip, Nat.add_comm, hk]

end TokenCursor

/-! ### The machine -/

/-- The calls that wait for a result, the innermost first. -/
inductive Calls (first : Construct) : Construct → Type where
  | nil : Calls first first
  /-- A construct that was begun at `start` has called for another one,
  and goes on with `next`. -/
  | cons {caller callee : Construct} (start : TokenCursor)
      (next : callee.Result → Procedure caller.Result) (waiting : Calls first caller) :
      Calls first callee

/-- A reading of a construct: in progress, in a construct that was begun
at `start`, or at an end. -/
inductive Descent (first : Construct) where
  | running {c : Construct} (start : TokenCursor) (todo : Procedure c.Result)
      (waiting : Calls first c) (cursor : TokenCursor)
  | ended (result : Except Misplaced first.Result) (cursor : TokenCursor)

namespace Descent

variable {first : Construct}

/-- The place of the cursor. -/
def cursor : Descent first → TokenCursor
  | .running _ _ _ cursor | .ended _ cursor => cursor

/-- The construct that returns, and where it was begun. -/
def returns? : Descent first → Option (Construct × TokenCursor)
  | .running (c := c) start (.done _) _ _ => some (c, start)
  | _ => none

/-- A construct that is about to be read. -/
def begin (first : Construct) (cursor : TokenCursor) : Descent first :=
  .running cursor first.body .nil cursor

/-- Does the next thing. -/
def step : Descent first → Descent first
  | .ended result cursor => .ended result cursor
  | .running start todo waiting cursor =>
    match todo with
    | .done a =>
      match waiting with
      | .nil => .ended (.ok a) cursor
      | .cons start next waiting => .running start (next a) waiting cursor
    | .missing expected => .ended (.error ⟨cursor.peek, expected⟩) cursor
    | .refuse equals => .ended (.error ⟨equals, "identifier as assignment target"⟩) cursor
    | .accept kinds found other =>
      match cursor.accept kinds with
      | (true, cursor) => .running start (found cursor.previous) waiting cursor
      | (false, cursor) => .running start other waiting cursor
    | .check kinds yes no =>
      .running start (if cursor.check kinds then yes else no) waiting cursor
    | .atEnd yes no => .running start (if cursor.isAtEnd then yes else no) waiting cursor
    | .call callee next => .running cursor callee.body (.cons start next waiting) cursor

/-! ### Where the cursor goes -/

/-- What is taken stands in front of the end. -/
theorem cursor_step (d : Descent first) :
    d.step.cursor = d.cursor ∨
      1 ≤ (bodyOf d.cursor.ahead).length ∧ d.step.cursor = d.cursor.skip 1 := by
  cases d with
  | ended result cursor => exact .inl rfl
  | running start todo waiting cursor =>
    cases todo with
    | done a => cases waiting <;> exact .inl rfl
    | missing expected | refuse equals | check kinds yes no | atEnd yes no | call callee next =>
      exact .inl rfl
    | accept kinds found other =>
      simp only [step, Descent.cursor]
      cases h : front? kinds (bodyOf cursor.ahead) with
      | none =>
        rw [cursor.accept_of_front?_none h]
        exact .inl rfl
      | some p =>
        rw [(cursor.accept_of_front? h).1]
        exact .inr ⟨Nat.one_le_of_lt (length_lt_of_front? h), rfl⟩

/-- From step to step the cursor is at one of the tokens up to the first
end. -/
theorem exists_cursor_eq (d : Descent first) (n : Nat) :
    ∃ k ≤ (bodyOf d.cursor.ahead).length, (step^[n] d).cursor = d.cursor.skip k := by
  induction n with
  | zero => exact ⟨0, Nat.zero_le _, rfl⟩
  | succ n ih =>
    obtain ⟨k, hk, hcursor⟩ := ih
    rw [Function.iterate_succ_apply']
    rcases (step^[n] d).cursor_step with hstep | ⟨hbody, hstep⟩
    · exact ⟨k, hk, hstep.trans hcursor⟩
    · rw [hcursor] at hbody hstep
      rw [TokenCursor.skip, bodyOf_drop hk, List.length_drop] at hbody
      exact ⟨k + 1, by omega, hstep.trans (TokenCursor.skip_skip _ _ _)⟩

theorem position_step (d : Descent first) :
    d.cursor.position ≤ d.step.cursor.position ∧
      d.step.cursor.position ≤ d.cursor.position + 1 := by
  rcases d.cursor_step with h | ⟨hbody, h⟩
  · rw [h]
    exact ⟨Nat.le_refl _, Nat.le_succ _⟩
  · rw [h, TokenCursor.position_skip hbody]
    exact ⟨Nat.le_succ _, Nat.le_refl _⟩

end Descent

/-! ### Progress -/

/-- A construct that takes a token has taken one since it was begun, or
its procedure still has to. -/
structure Progresses {c : Construct} (start : TokenCursor) (todo : Procedure c.Result)
    (cursor : TokenCursor) : Prop where
  le : start.position ≤ cursor.position
  lt_or : c.Moves → start.position < cursor.position ∨ todo.Advances

/-- Every construct progresses that has called for the next one, where
that was begun. -/
def Calls.Progress {first : Construct} {c : Construct} :
    Calls first c → TokenCursor → Prop
  | .nil, _ => True
  | .cons start next waiting, called =>
    Progresses start (.call c next) called ∧ waiting.Progress start

namespace Progresses

variable {c : Construct} {start cursor : TokenCursor}

theorem begin (c : Construct) (cursor : TokenCursor) : Progresses cursor c.body cursor where
  le := Nat.le_refl _
  lt_or hc := .inr (Construct.advances_body hc)

/-- What has come past a token may do anything. -/
theorem of_lt {todo : Procedure c.Result} (h : start.position < cursor.position) :
    Progresses start todo cursor :=
  ⟨Nat.le_of_lt h, fun _ => .inl h⟩

theorem imp {todo todo' : Procedure c.Result} (h : Progresses start todo cursor)
    (hadvances : todo.Advances → todo'.Advances) : Progresses start todo' cursor :=
  ⟨h.le, fun hc => (h.lt_or hc).imp_right hadvances⟩

/-- What returns has taken a token, if its construct takes one. -/
theorem lt_of_done {a : c.Result} (h : Progresses start (.done a) cursor) (hc : c.Moves) :
    start.position < cursor.position :=
  (h.lt_or hc).resolve_right id

/-- The construct that called for one that returns goes on. -/
theorem resume {callee : Construct} {called : TokenCursor} {a : callee.Result}
    {next : callee.Result → Procedure c.Result} (h : Progresses start (.call callee next) called)
    (hcallee : Progresses called (.done a) cursor) : Progresses start (next a) cursor where
  le := h.le.trans hcallee.le
  lt_or hc := by
    rcases h.lt_or hc with hlt | hmoves | hnext
    · exact .inl (Nat.lt_of_lt_of_le hlt hcallee.le)
    · exact .inl (Nat.lt_of_le_of_lt h.le (hcallee.lt_of_done hmoves))
    · exact .inr (hnext a)

end Progresses

namespace Descent

variable {first : Construct}

/-- Every construct that has been begun progresses. -/
def Progress : Descent first → Prop
  | .running start todo waiting cursor => Progresses start todo cursor ∧ waiting.Progress start
  | .ended _ _ => True

theorem Progress.step {d : Descent first} (h : d.Progress) : d.step.Progress := by
  cases d with
  | ended result cursor => exact trivial
  | running start todo waiting cursor =>
    obtain ⟨htodo, hwaiting⟩ := h
    cases todo with
    | done a =>
      cases waiting with
      | nil => exact trivial
      | cons start' next waiting => exact ⟨hwaiting.1.resume htodo, hwaiting.2⟩
    | missing expected | refuse equals => exact trivial
    | check kinds yes no | atEnd yes no =>
      refine ⟨htodo.imp fun h => ?_, hwaiting⟩
      split
      · exact h.1
      · exact h.2
    | call callee next => exact ⟨.begin callee cursor, htodo, hwaiting⟩
    | accept kinds found other =>
      -- the only step that can move the cursor
      simp only [Descent.step]
      cases h : front? kinds (bodyOf cursor.ahead) with
      | none =>
        rw [cursor.accept_of_front?_none h]
        exact ⟨htodo.imp id, hwaiting⟩
      | some p =>
        have hposition : (cursor.skip 1).position = cursor.position + 1 :=
          TokenCursor.position_skip (Nat.one_le_of_lt (length_lt_of_front? h))
        rw [(cursor.accept_of_front? h).1]
        exact ⟨.of_lt (hposition ▸ Nat.lt_succ_of_le htodo.le), hwaiting⟩

theorem Progress.iterate {d : Descent first} (h : d.Progress) (n : Nat) :
    (Descent.step^[n] d).Progress := by
  induction n with
  | zero => exact h
  | succ n ih =>
    rw [Function.iterate_succ_apply']
    exact ih.step

theorem progress_begin (c : Construct) (cursor : TokenCursor) : (begin c cursor).Progress :=
  ⟨.begin c cursor, trivial⟩

/-- What returns from a construct that takes a token has taken one. -/
theorem Progress.lt_of_returns {d : Descent first} (h : d.Progress) {c : Construct}
    {start : TokenCursor} (hreturns : d.returns? = some (c, start)) (hc : c.Moves) :
    start.position < d.cursor.position := by
  cases d with
  | ended result cursor => cases hreturns
  | running start' todo waiting cursor =>
    cases todo with
    | done a =>
      cases hreturns
      exact h.1.lt_of_done hc
    | _ => cases hreturns

/-! ### The end -/

/-- The second state comes after the first one. -/
def Reaches (d d' : Descent first) : Prop :=
  ∃ n, step^[n] d = d'

theorem Reaches.refl (d : Descent first) : Reaches d d :=
  ⟨0, rfl⟩

theorem Reaches.trans {d d' d'' : Descent first} (h : Reaches d d') (h' : Reaches d' d'') :
    Reaches d d'' := by
  obtain ⟨n, rfl⟩ := h
  obtain ⟨n', rfl⟩ := h'
  exact ⟨n' + n, Function.iterate_add_apply _ _ _ _⟩

theorem reaches_step (d : Descent first) : Reaches d d.step :=
  ⟨1, rfl⟩

section Ends

variable {origin : TokenCursor} {c : Construct} {start : TokenCursor} {waiting : Calls first c}
  {d d' : Descent first} {x : Answer c.Result} {k : Nat}

/-- The state comes to the result of a construct, at the tokens that the
answer leaves, or to an end if the answer is a failure. -/
def Ends (origin start : TokenCursor) (waiting : Calls first c) (d : Descent first) :
    Answer c.Result → Prop
  | .ok (a, rest) =>
    ∃ k ≤ (bodyOf origin.ahead).length, rest = (bodyOf origin.ahead).drop k ∧
      d.Reaches (.running start (.done a) waiting (origin.skip k))
  | .error f =>
    ∃ k ≤ (bodyOf origin.ahead).length, f.rest = (bodyOf origin.ahead).drop k ∧
      d.Reaches (.ended (.error (f.misplaced (endOf origin.ahead))) (origin.skip k))

theorem Ends.of_reaches (h : d.Reaches d') (hends : Ends origin start waiting d' x) :
    Ends origin start waiting d x := by
  match x, hends with
  | .ok _, ⟨k, hk, hrest, hreaches⟩ => exact ⟨k, hk, hrest, h.trans hreaches⟩
  | .error _, ⟨k, hk, hrest, hreaches⟩ => exact ⟨k, hk, hrest, h.trans hreaches⟩

theorem Ends.of_step (hends : Ends origin start waiting d.step x) :
    Ends origin start waiting d x :=
  hends.of_reaches (reaches_step d)

/-- What is left to read for a construct of some level. -/
def measure (origin : TokenCursor) (k level : Nat) : Nat :=
  Construct.levels * ((bodyOf origin.ahead).length - k) + level

theorem measure_le_of_lt {k' level : Nat} (hk : k < (bodyOf origin.ahead).length) (hlt : k < k') :
    measure origin k' Construct.levels ≤ measure origin k level := by
  have hlevels : Construct.levels = 12 := rfl
  rw [measure, measure, hlevels]
  omega

theorem measure_mono {k' level : Nat} (hle : k ≤ k') :
    measure origin k' level ≤ measure origin k level :=
  Nat.add_le_add_right (Nat.mul_le_mul_left _ (Nat.sub_le_sub_left hle _)) _

/-- Every construct of which less than the bound is left ends as it is
read. -/
def EndsBelow (first : Construct) (origin : TokenCursor) (bound : Nat) : Prop :=
  ∀ {c : Construct} {start : TokenCursor} {waiting : Calls first c} {k : Nat},
    k ≤ (bodyOf origin.ahead).length → measure origin k c.level < bound →
      Ends origin start waiting (.running start c.body waiting (origin.skip k))
        (c.read ((bodyOf origin.ahead).drop k))

/-- A procedure ends as it answers, if every construct ends that it may
call for. -/
theorem ends_todo {bound level : Nat} (hbelow : EndsBelow first origin bound)
    (todo : Procedure c.Result) (hk : k ≤ (bodyOf origin.ahead).length)
    (htodo : todo.Guarded level) (hbound : measure origin k level ≤ bound) :
    Ends origin start waiting (.running start todo waiting (origin.skip k))
      (todo.answer ((bodyOf origin.ahead).drop k)) := by
  have hbody := @bodyOf_drop origin.ahead
  induction todo generalizing k level with
  | done a => exact ⟨k, hk, rfl, .refl _⟩
  | missing expected =>
    refine ⟨k, hk, rfl, ?_⟩
    have hpeek := (origin.skip k).peek_eq
    rw [TokenCursor.skip, hbody hk, endOf_drop hk] at hpeek
    rw [Failure.misplaced, ← hpeek]
    exact reaches_step _
  | refuse equals => exact ⟨k, hk, rfl, reaches_step _⟩
  | accept kinds found other ihfound ihother =>
    refine .of_step ?_
    rw [step, Procedure.answer]
    cases hfront : front? kinds ((bodyOf origin.ahead).drop k) with
    | none =>
      rw [TokenCursor.accept_of_front?_none _ ((hbody hk).symm ▸ hfront)]
      exact ihother hk htodo hbound
    | some p =>
      obtain ⟨t, rest⟩ := p
      obtain ⟨haccept, hprevious⟩ :=
        TokenCursor.accept_of_front? (origin.skip k) ((hbody hk).symm ▸ hfront)
      have hrest := (front?_eq_some_iff.mp hfront).1
      have hlt := length_lt_of_front? hfront
      rw [List.length_drop] at hlt
      obtain rfl : rest = (bodyOf origin.ahead).drop (k + 1) := by
        rw [← List.tail_drop, hrest, List.tail_cons]
      rw [TokenCursor.skip_skip] at haccept hprevious
      rw [haccept]
      simp only [hprevious]
      -- behind the token any construct may be called for
      exact ihfound t (by omega) (Procedure.guarded_levels _)
        ((measure_le_of_lt (by omega) (Nat.lt_succ_self k)).trans hbound)
  | check kinds yes no ihyes ihno =>
    refine .of_step ?_
    rw [step, Procedure.answer, TokenCursor.check_eq, TokenCursor.skip, hbody hk]
    split
    · exact ihyes hk htodo.1 hbound
    · exact ihno hk htodo.2 hbound
  | atEnd yes no ihyes ihno =>
    refine .of_step ?_
    rw [step, Procedure.answer, TokenCursor.isAtEnd_eq, TokenCursor.skip, hbody hk]
    split
    · exact ihyes hk htodo.1 hbound
    · exact ihno hk htodo.2 hbound
  | call callee next ih =>
    refine .of_step ?_
    have hends := @hbelow callee (origin.skip k) (.cons start next waiting) k hk
      (Nat.lt_of_lt_of_le (Nat.add_lt_add_left htodo.1 _) hbound)
    rw [step, Procedure.answer]
    cases hread : callee.read ((bodyOf origin.ahead).drop k) with
    | error f =>
      rw [hread] at hends
      exact hends
    | ok p =>
      obtain ⟨a, rest⟩ := p
      rw [hread] at hends
      obtain ⟨k', hk', rfl, hreaches⟩ := hends
      refine .of_reaches (hreaches.trans (reaches_step _)) ?_
      rcases htodo.2 with hmoves | hnext
      · have hlt := Construct.length_lt_of_read hmoves hread
        rw [List.length_drop, List.length_drop] at hlt
        exact ih a hk' (Procedure.guarded_levels _)
          ((measure_le_of_lt (by omega) (by omega)).trans hbound)
      · have hle := Construct.length_le_of_read hread
        rw [List.length_drop, List.length_drop] at hle
        exact ih a hk' (hnext a) ((measure_mono (by omega)).trans hbound)

/-- Every construct ends as it is read. -/
theorem endsBelow (first : Construct) (origin : TokenCursor) (bound : Nat) :
    EndsBelow first origin bound := by
  induction bound with
  | zero => exact fun _ hlt => absurd hlt (Nat.not_lt_zero _)
  | succ bound ih =>
    intro c start waiting k hk hlt
    rw [Construct.read_eq]
    exact ends_todo ih c.body hk c.guarded_body (Nat.le_of_lt_succ hlt)

end Ends

end Descent

/-- What is read step by step ends where it does if it is read as a
whole, with the same result. -/
theorem Descent.reaches_readAll (origin : TokenCursor) :
    (begin .program origin).Reaches (.ended (program origin.ahead) origin.readAll.2) := by
  have hends := @endsBelow .program origin _ .program origin .nil 0 (Nat.zero_le _)
    (Nat.lt_succ_self _)
  rw [Construct.read, List.drop_zero, Stmt.answerAll] at hends
  rw [program, TokenCursor.readAll]
  cases hread : Stmt.readAll (bodyOf origin.ahead) with
  -- the cursor is in front of what the reading has left: nothing, or what is behind a failure
  | ok ss =>
    rw [hread] at hends
    obtain ⟨k, hk, hrest, hreaches⟩ := hends
    obtain rfl : k = (bodyOf origin.ahead).length :=
      hk.antisymm (List.drop_eq_nil_iff.mp hrest.symm)
    exact hreaches.trans (reaches_step _)
  | error f =>
    rw [hread] at hends
    obtain ⟨k, hk, hrest, hreaches⟩ := hends
    obtain rfl : k = (bodyOf origin.ahead).length - f.rest.length := by
      rw [hrest, List.length_drop]
      omega
    exact hreaches

/-! ### Token lists with an end -/

/-- The last token is one of an end. There may be others in front of
it. -/
def EndsWithEnd (tokens : List Token) : Prop :=
  ∃ eof ∈ tokens.getLast?, eof.kind = .eof

theorem EndsWithEnd.exists_mem {tokens : List Token} (h : EndsWithEnd tokens) :
    ∃ t ∈ tokens, t.kind = .eof := by
  obtain ⟨eof, hlast, heof⟩ := h
  exact ⟨eof, List.mem_of_mem_getLast? hlast, heof⟩

theorem EndsWithEnd.length_lt {tokens : List Token} (h : EndsWithEnd tokens) :
    (bodyOf tokens).length < tokens.length := by
  obtain ⟨eof, hmem, heof⟩ := h.exists_mem
  refine Nat.lt_of_le_of_ne (List.takeWhile_prefix _).length_le fun hlength => ?_
  have hall := (List.takeWhile_prefix _).eq_of_length hlength
  exact absurd heof (kind_of_mem_bodyOf (by rw [bodyOf, hall]; exact hmem))

/-- Before every step the cursor is at a token of a list that ends with an
end, and that is not behind the first one. -/
theorem Descent.exists_cursor_eq_skip {tokens : List Token} (hend : EndsWithEnd tokens) (n : Nat) :
    let origin : TokenCursor := { ahead := tokens }
    ∃ k ≤ (bodyOf tokens).length, (step^[n] (begin .program origin)).cursor = origin.skip k ∧
      (step^[n] (begin .program origin)).cursor.position = k ∧
      (step^[n] (begin .program origin)).cursor.ahead ≠ [] := by
  intro origin
  obtain ⟨k, hk, hcursor⟩ := (begin .program origin).exists_cursor_eq n
  refine ⟨k, hk, hcursor, ?_, ?_⟩
  · exact (congrArg _ hcursor).trans ((TokenCursor.position_skip hk).trans (Nat.zero_add k))
  · intro hahead
    have hlength := hend.length_lt
    rw [hcursor] at hahead
    exact absurd (List.drop_eq_nil_iff.mp hahead) (Nat.not_le_of_lt (hk.trans_lt hlength))

/-- The statements of a token list are read without leaving the list:
before every step the cursor is at a token, and the steps come to an
end. -/
def Descent.StaysWithin (tokens : List Token) : Prop :=
  let origin : TokenCursor := { ahead := tokens }
  (∃ n, step^[n] (begin .program origin) = .ended (program tokens) origin.readAll.2) ∧
    ∀ n, (step^[n] (begin .program origin)).cursor.ahead ≠ []

theorem Descent.staysWithin {tokens : List Token} (hend : EndsWithEnd tokens) :
    StaysWithin tokens := by
  refine ⟨reaches_readAll { ahead := tokens }, fun n => ?_⟩
  obtain ⟨_, -, -, -, hahead⟩ := exists_cursor_eq_skip hend n
  exact hahead

/-- Reading the statements of a token list that ends with an end comes to
an end, either with all tokens up to the first one taken or at a token
that is misplaced. From step to step the cursor is within the list, not
past the first end, and does not go back. What returns from the reading
of a statement, an expression or an operand has taken a token. -/
theorem Descent.program_ends {tokens : List Token} (hend : EndsWithEnd tokens) :
    let origin : TokenCursor := { ahead := tokens }
    let after (n : Nat) := step^[n] (begin .program origin)
    (∃ n, after n = .ended (program tokens) origin.readAll.2) ∧
      (∀ ss, program tokens = .ok ss →
        origin.readAll.2 = origin.skip (bodyOf tokens).length ∧ origin.readAll.2.isAtEnd) ∧
      (∀ m, program tokens = .error m → m.error.cause = .grammar m.found m.expected) ∧
      Monotone (fun n => (after n).cursor.position) ∧
      ∀ n, (∃ k ≤ (bodyOf tokens).length, (after n).cursor = origin.skip k ∧
          (after n).cursor.position = k ∧ (after n).cursor.ahead ≠ []) ∧
        ∀ c start, (after n).returns? = some (c, start) → c.Moves →
          start.position < (after n).cursor.position := by
  intro origin after
  have hsucc (n : Nat) : after (n + 1) = (after n).step := Function.iterate_succ_apply' _ _ _
  refine ⟨reaches_readAll origin, fun ss hprogram => ?_, fun m _ => m.grammar.2, ?_,
    fun n => ⟨?_, fun c start hreturns hc => ?_⟩⟩
  -- everything in front of the first end has been taken
  · have hread : Stmt.readAll (bodyOf origin.ahead) = .ok ss := program_eq_ok_iff.mp hprogram
    have hcursor : origin.readAll.2 = origin.skip (bodyOf tokens).length := by
      rw [TokenCursor.readAll, hread]
    have hbody : bodyOf (origin.skip (bodyOf tokens).length).ahead = [] := by
      rw [TokenCursor.skip, bodyOf_drop (Nat.le_refl _), List.drop_length]
    rw [hcursor, TokenCursor.isAtEnd_eq, hbody]
    exact ⟨rfl, rfl⟩
  · refine monotone_nat_of_le_succ fun n => ?_
    rw [hsucc]
    exact (after n).position_step.1
  · exact exists_cursor_eq_skip hend n
  · exact ((progress_begin .program origin).iterate n).lt_of_returns hreturns hc

/-- `a; b;` with an end behind either statement. -/
def endedTwice : List Token :=
  [(.identifier, "a"), (.semicolon, ";"), (.eof, ""), (.identifier, "b"), (.semicolon, ";"),
    (.eof, "")].map fun (kind, lexeme) => { kind, lexeme, line := 1 }

/-- The first end is where the reading ends. -/
theorem Descent.program_ends_endedTwice :
    EndsWithEnd endedTwice ∧ ∃ n, step^[n] (begin .program { ahead := endedTwice }) =
      .ended (.ok [.expression (.variable endedTwice[0])])
        (({ ahead := endedTwice } : TokenCursor).skip 2) := by
  have hend : EndsWithEnd endedTwice := ⟨endedTwice[5], rfl, rfl⟩
  have hprogram : program endedTwice = .ok [.expression (.variable endedTwice[0])] := by cbv
  obtain ⟨⟨n, hn⟩, hok, -⟩ := program_ends hend
  rw [hprogram, (hok _ hprogram).1] at hn
  exact ⟨hend, n, hn⟩

end LoxLang
