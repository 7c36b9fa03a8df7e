import LoxLang.Proofs.Session.Histories

/-!
# `LoxLang.Proofs.Session.Interruptions`: units that are broken off

The user can interrupt a unit, and the machine can run out of room for a
deeply nested one. Neither is a failure of the unit, and both can happen
at any point of it. What the unit has done by then remains done, the
scopes that it is in are left, and the incident is handled in place of a
failure.

* `Expr.BrokenOff`, `Stmt.AllBrokenOff`: how far an evaluation or an
  execution can have got;
* `Session.BrokenOff`: how far a unit can have got;
* `Session.Settled.brokenOff`: a unit that is broken off leaves a settled
  session and one message;
* `Session.Reached.settled`: so does any mixture of units that end by
  themselves and units that are broken off.
-/

set_option autoImplicit false

namespace LoxLang

/-! ### Expressions -/

/-- The operand that an expression evaluates first. -/
def Expr.first? : Expr → Option Expr
  | .grouping e | .unary _ e | .binary e _ _ | .logical e _ _ | .assign _ e => some e
  | .literal _ | .variable _ | .alien _ => none

/-- The chains with which an evaluation can be broken off: in front of
the expression, behind it, or inside of an operand that it gets to. -/
inductive Expr.BrokenOff : Expr → Chain → Chain → Prop where
  | before (e : Expr) (c : Chain) : BrokenOff e c c
  | behind {e : Expr} {c d : Chain} {v : Value} (he : (eval e).run.run c = (.ok v, d)) :
      BrokenOff e c d
  | first {e operand : Expr} {c d : Chain} (hfirst : e.first? = some operand)
      (h : BrokenOff operand c d) : BrokenOff e c d
  | binary {left right : Expr} {operator : Token} {c d d' : Chain} {v : Value}
      (hleft : (eval left).run.run c = (.ok v, d)) (h : BrokenOff right d d') :
      BrokenOff (.binary left operator right) c d'
  | logical {left right : Expr} {operator : Token} {c d d' : Chain} {v : Value}
      (hleft : (eval left).run.run c = (.ok v, d))
      (hright : ¬ (v.isTruthy = true ↔ operator.kind = .or)) (h : BrokenOff right d d') :
      BrokenOff (.logical left operator right) c d'

variable {names : List String}

/-- An expression that is broken off has bound no name either. -/
theorem Expr.BrokenOff.extends {e : Expr} {c d : Chain} (h : e.BrokenOff c d) :
    c.Extends names d := by
  induction h with
  | before e c => exact .refl c
  | behind he => exact (eval_keeps _).of_run he
  | first _ _ ih => exact ih
  | binary hleft _ ih | logical hleft _ _ ih => exact ((eval_keeps _).of_run hleft).trans ih

/-! ### Statements -/

/-- The expression that a statement starts with. -/
def Stmt.first? : Stmt → Option Expr
  | .expression e | .print _ e | .var _ e | .ifThen e _ | .ifElse e _ _ | .while e _ => some e
  | .block _ | .alien _ => none

/-- The statements that a statement goes on with when the expression that
it starts with has the given value. A loop goes on with its body and
then with itself. -/
def Stmt.continuation (v : Value) : Stmt → List Stmt
  | .ifThen _ consequent => if v.isTruthy then [consequent] else []
  | .ifElse _ consequent alternative => if v.isTruthy then [consequent] else [alternative]
  | .while condition body => if v.isTruthy then [body, .while condition body] else []
  | .expression _ | .print _ _ | .var _ _ | .block _ | .alien _ => []

/-- The machines that are left when an execution is broken off: in front
of a statement or behind the last one, or inside of one. A block is left
however it ends, so its scope is gone. -/
inductive Stmt.AllBrokenOff : List Stmt → Machine → Machine → Prop where
  | here (ss : List Stmt) (m : Machine) : AllBrokenOff ss m m
  | later {rounds : Nat} {s : Stmt} {rest : List Stmt} {m n k : Machine}
      (hs : (exec rounds s).run.run m = (.ok (), n)) (h : AllBrokenOff rest n k) :
      AllBrokenOff (s :: rest) m k
  | expression {s : Stmt} {rest : List Stmt} {e : Expr} {m : Machine} {d : Chain}
      (hfirst : s.first? = some e) (h : e.BrokenOff m.chain d) :
      AllBrokenOff (s :: rest) m { m with chain := d }
  | continuation {s : Stmt} {rest : List Stmt} {e : Expr} {v : Value} {m n k : Machine}
      (hfirst : s.first? = some e) (he : (evaluate e).run.run m = (.ok v, n))
      (h : AllBrokenOff (s.continuation v) n k) : AllBrokenOff (s :: rest) m k
  | block {body rest : List Stmt} {m n : Machine} (h : AllBrokenOff body m.enter n) :
      AllBrokenOff (.block body :: rest) m (n.leave m.place)

/-- An execution that has ended well can be broken off behind its last
statement. -/
theorem Stmt.AllBrokenOff.behind {rounds : Nat} {ss : List Stmt} :
    ∀ {m n : Machine}, (execAll rounds ss).run.run m = (.ok (), n) → AllBrokenOff ss m n := by
  induction ss with
  | nil =>
    intro m n h
    rw [execAll] at h
    cases h
    exact .here [] m
  | cons s rest ih =>
    intro m n h
    rw [execAll, run_bind] at h
    rcases hs : (exec rounds s).run.run m with ⟨fault | ⟨⟩, k⟩ <;> rw [hs] at h
    · cases h
    · exact .later hs (ih h)

/-- What a statement goes on with declares nothing that the statement does
not declare. -/
theorem Stmt.declared_continuation_subset (v : Value) (s : Stmt) :
    (s.continuation v).flatMap Stmt.declared ⊆ s.declared := by
  cases s with
  | expression | print | var | block | alien => exact List.nil_subset _
  | ifThen | ifElse | «while» =>
    rw [continuation]
    split <;> simp [declared]

/-- A machine on which an execution is broken off is where it was, and has
the names that it would have if the execution had ended there. -/
theorem Stmt.AllBrokenOff.keeps {ss : List Stmt} {m n : Machine} (h : AllBrokenOff ss m n) :
    ∀ {names : List String}, ss.flatMap Stmt.declared ⊆ names → m.Keeps names n := by
  induction h with
  | here ss m => exact fun _ => .refl m
  | @later rounds s rest m n k hs _ ih =>
    intro names hnames
    rw [List.flatMap_cons] at hnames
    obtain ⟨hfirst, hrest⟩ := List.append_subset.mp hnames
    exact ((exec_keeps rounds s hfirst).of_run hs).trans (ih hrest)
  | expression _ h => exact fun _ => ⟨rfl, h.extends⟩
  | @continuation s rest e v m n k _ he _ ih =>
    intro names hnames
    rw [List.flatMap_cons] at hnames
    have hdeclared : s.declared ⊆ names := (List.append_subset.mp hnames).1
    exact ((evaluate_keeps e).of_run he).trans
      (ih (List.Subset.trans (s.declared_continuation_subset v) hdeclared))
  | @block body rest m n _ ih =>
    intro names _
    -- inside, the statements may declare what they like
    have hbody := (ih (List.Subset.refl _)).chain
    rw [Machine.chain_enter] at hbody
    exact ⟨Machine.place_leave _ _, by rw [Machine.chain_leave]; exact hbody.leave⟩

/-! ### Units -/

namespace Session

variable {rounds : Nat} {unit : String} {units : List String} {s t : Session}

/-- The sessions in which a unit that has begun can be broken off: while
it is read, or while its statements are executed. -/
inductive BrokenOff (unit : String) (s : Session) : Session → Prop where
  | reading (notes : Array Note) : BrokenOff unit s { begin unit s with notes }
  | executing (notes : Array Note) {ss : List Stmt} {m : Machine}
      (hparses : Parses unit s.nextLine ss) (h : Stmt.AllBrokenOff ss s.machine m) :
      BrokenOff unit s { begin unit s with notes, machine := { m with events := [] } }

namespace BrokenOff

theorem nextLine (h : BrokenOff unit s t) :
    t.nextLine = s.nextLine + unit.toList.count '\n' + 1 := by
  cases h <;> rfl

theorem reporter (h : BrokenOff unit s t) : t.reporter = (begin unit s).reporter := by
  cases h <;> rfl

/-- A unit that is broken off leaves the interpreter where it was. -/
theorem keeps_globals (h : BrokenOff unit s t) (houter : s.machine.chain.outer = []) :
    t.machine.chain.outer = [] ∧ t.machine.place = s.machine.place := by
  cases h with
  | reading => exact ⟨houter, rfl⟩
  | executing notes hparses h =>
    obtain ⟨hplace, hchain⟩ := h.keeps (List.Subset.refl _)
    exact ⟨hchain.outer_eq_nil houter, hplace⟩

end BrokenOff

/-- What breaks a unit off that is no failure of it. -/
def breaks : List Incident :=
  [.interrupted, .tooDeep]

/-- It has an error to report, which names no line. -/
theorem exists_error_of_mem_breaks {incident : Incident} (h : incident ∈ breaks) :
    ∃ e, incident = .error e ∧ e.line = none := by
  rw [breaks, List.mem_pair] at h
  obtain rfl | rfl := h <;> exact ⟨_, rfl, rfl⟩

/-- A unit that is broken off behind others leads from one settled session
to the next, as one that ends by itself does. Just the message for what
has broken it off is written, and the machine stays as it was left. -/
theorem Settled.brokenOff (h : s.Settled units) (ht : BrokenOff unit s t) {incident : Incident}
    (hincident : incident ∈ breaks) :
    ∃ e t', incident = .error e ∧ e.line = none ∧
      (handle incident).run t = (.resumed, t') ∧
      t'.Settled (units ++ [unit]) ∧
      t'.machine = t.machine ∧
      t'.reporter.written =
        s.reporter.written ++ (begin unit s).reporter.render e ++ "\n" := by
  obtain ⟨e, rfl, hline⟩ := exists_error_of_mem_breaks hincident
  have hfatal : t.reporter.fatal = false := by
    rw [ht.reporter, reporter_begin]
    exact h.fatal
  have hglobals := ht.keeps_globals h.outer
  refine ⟨e, _, rfl, hline, run_handle_error e hfatal, ?_, rfl, ?_⟩
  · refine ⟨?_, rfl, hfatal, hglobals.1, hglobals.2.trans h.place⟩
    show t.nextLine = _
    rw [ht.nextLine, h.nextLine, lineBehind_concat]
  · show t.reporter.written ++ t.reporter.render e ++ "\n" = _
    rw [ht.reporter, reporter_begin]

/-- The sessions behind some units, each of which has either ended by
itself or been broken off, and has been handled. -/
inductive Reached (rounds : Nat) : List String → Session → Prop where
  | fresh (color traced : Bool) : Reached rounds [] (fresh color traced)
  | ended {units : List String} {s : Session} (h : Reached rounds units s) (unit : String) :
      Reached rounds (units ++ [unit]) ((runReported rounds unit).run s).2
  | brokenOff {units : List String} {unit : String} {s t : Session} {incident : Incident}
      (h : Reached rounds units s) (ht : BrokenOff unit s t) (hincident : incident ∈ breaks) :
      Reached rounds (units ++ [unit]) ((handle incident).run t).2

/-- Between its units a session is settled, whatever has ended them. -/
theorem Reached.settled (h : Reached rounds units s) : s.Settled units := by
  induction h with
  | fresh color traced => exact settled_fresh color traced
  | ended _ unit ih => exact ih.step rounds unit
  | brokenOff _ ht hincident ih =>
    obtain ⟨e, t', -, -, hrun, hsettled, -⟩ := ih.brokenOff ht hincident
    rw [hrun]
    exact hsettled

end Session

end LoxLang
