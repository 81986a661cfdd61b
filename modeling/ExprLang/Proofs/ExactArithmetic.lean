import ExprLang.Proofs.EvaluationLevels
import ExprLang.Proofs.EvaluationOutcomes

/-!
Machine words against all integers. The exact evaluation checks no range. A trace of its arithmetic
operations tells where the evaluation on machine words leaves it: at the first operation whose
result is no word.
-/

namespace ExprLang

/-- All integers, and as many levels as a tree has. -/
def Limits.exact : Limits :=
  { fits := fun _ => true, levels := none }

namespace Evaluation

inductive Operation where
  | negation (n : Int)
  | sum (a b : Int)
  | difference (a b : Int)
  | product (a b : Int)
  | quotient (a b : Int)
deriving DecidableEq, Repr

namespace Operation

def operator : Operation → TokenKind
  | negation _ | difference _ _ => .minus
  | sum _ _ => .plus
  | product _ _ => .star
  | quotient _ _ => .slash

def result : Operation → Int
  | negation n => -n
  | sum a b => a + b
  | difference a b => a - b
  | product a b => a * b
  | quotient a b => a.tdiv b

def overflow (operation : Operation) : Problem :=
  .integerOverflow operation.operator.symbol

def ofUnary? : TokenKind → Value → Option Operation
  | .minus, .integer n => some (.negation n)
  | _, _ => none

/-- The operation that an operator performs on two values. Division by zero is none. -/
def ofBinary? : TokenKind → Value → Value → Option Operation
  | .plus, .integer a, .integer b => some (.sum a b)
  | .minus, .integer a, .integer b => some (.difference a b)
  | .star, .integer a, .integer b => some (.product a b)
  | .slash, .integer a, .integer b => if b = 0 then none else some (.quotient a b)
  | _, _, _ => none

end Operation

/-- An outcome and the operations performed on the way to it, in their order. -/
structure Traced (α : Type) where
  operations : List Operation
  outcome : Except Fault α

namespace Traced

variable {α β : Type}

def ofOutcome (outcome : Except Fault α) : Traced α :=
  { operations := [], outcome }

instance : Monad Traced where
  pure a := ofOutcome (.ok a)
  bind t f :=
    match t.outcome with
    | .ok a => { operations := t.operations ++ (f a).operations, outcome := (f a).outcome }
    | .error fault => { operations := t.operations, outcome := .error fault }

def applyUnary (op : TokenKind) (v : Value) : Traced Value :=
  { operations := (Operation.ofUnary? op v).toList
    outcome := Evaluation.applyUnary Limits.exact.fits op v }

def applyBinary (op : TokenKind) (v w : Value) : Traced Value :=
  { operations := (Operation.ofBinary? op v w).toList
    outcome := Evaluation.applyBinary Limits.exact.fits op v w }

/-- The outcome if the first operation whose result does not fit is a fault. -/
def cut (fits : Int → Bool) (t : Traced α) : Except Fault α :=
  match t.operations.find? (!fits ·.result) with
  | some operation => .error (.problem operation.overflow)
  | none => t.outcome

@[simp] theorem cut_ofOutcome (fits : Int → Bool) (outcome : Except Fault α) :
    (ofOutcome outcome).cut fits = outcome :=
  rfl

theorem cut_exact (t : Traced α) : t.cut Limits.exact.fits = t.outcome := by
  have hn : t.operations.find? (!Limits.exact.fits ·.result) = none := by
    simp [Limits.exact]
  simp only [cut, hn]

theorem cut_bind (fits : Int → Bool) (t : Traced α) (f : α → Traced β) :
    (t >>= f).cut fits = t.cut fits >>= fun a => (f a).cut fits := by
  obtain ⟨operations, outcome⟩ := t
  cases hf : operations.find? (!fits ·.result) with
  | some operation => cases outcome <;> simp [bind, cut, hf, Except.bind]
  | none => cases outcome <;> simp [bind, cut, hf, Except.bind]

section
variable (fits : Int → Bool) (op : TokenKind)

theorem cut_performed {operation : Operation} {n : Int} (hop : op.isOperator = true)
    (ho : operation.operator = op) (hr : operation.result = n) :
    cut fits { operations := [operation], outcome := .ok (.integer n) } = checked fits op n := by
  subst ho hr
  cases hn : fits operation.result with
  | true => simp [cut, checked, hn]
  | false =>
    simp only [cut, checked, hn, symbolOf_of_isOperator hop]
    simp [hn, Operation.overflow, bind, Except.bind]

theorem cut_applyUnary (v : Value) :
    (applyUnary op v).cut fits = Evaluation.applyUnary fits op v := by
  cases v with
  | boolean b => cases op <;> rfl
  | integer n =>
    cases op with
    | minus => exact cut_performed fits .minus rfl rfl rfl
    | _ => rfl

theorem cut_applyBinary (v w : Value) :
    (applyBinary op v w).cut fits = Evaluation.applyBinary fits op v w := by
  cases v with
  | boolean a => cases w <;> cases op <;> rfl
  | integer a =>
    cases w with
    | boolean b => cases op <;> rfl
    | integer b =>
      cases op with
      | plus => exact cut_performed fits .plus rfl rfl rfl
      | minus => exact cut_performed fits .minus rfl rfl rfl
      | star => exact cut_performed fits .star rfl rfl rfl
      | slash =>
        simp only [applyBinary, Operation.ofBinary?, Evaluation.applyBinary, applyInteger]
        by_cases hb : b = 0
        · simp only [if_pos hb]
          rfl
        · simp only [if_neg hb]
          exact cut_performed fits .slash rfl rfl rfl
      | _ => rfl

end

end Traced

end Evaluation

open Evaluation

mutual
/-- The exact evaluation with its operations. -/
def Expr.traced : Expr → Traced (Option Value)
  | .name text => .ofOutcome ((Expr.name text).eval .exact)
  | .number value => .ofOutcome ((Expr.number value).eval .exact)
  | .truth b => .ofOutcome ((Expr.truth b).eval .exact)
  | .unary op x => do
    return some (← Traced.applyUnary op (← Expr.tracedOperand op x))
  | .binary op x y => do
    let left ← .ofOutcome (required op (← x.traced))
    let right ← Expr.tracedOperand op y
    return some (← Traced.applyBinary op left right)
  | .conditional c t e => do
    if ← .ofOutcome (truthOf (← c.traced)) then Stmt.tracedList t none
    else Stmt.tracedOption e
  | .function ps b => .ofOutcome ((Expr.function ps b).eval .exact)
  | .call f _ => do
    .ofOutcome (.error (.problem (.notCallable (resultTypeName (← f.traced)))))
termination_by structural e => e

def Expr.tracedOperand (op : TokenKind) : Option Expr → Traced Value
  | none => .ofOutcome (missing op)
  | some x => do .ofOutcome (required op (← x.traced))
termination_by structural x => x

def Stmt.traced : Stmt → Traced (Option Value)
  | .binding name x => .ofOutcome ((Stmt.binding name x).eval .exact)
  | .ret x => .ofOutcome ((Stmt.ret x).eval .exact)
  | .expr x => x.traced
  | .block b => Stmt.tracedList b none
termination_by structural s => s

def Stmt.tracedList : List Stmt → Option Value → Traced (Option Value)
  | [], result => .ofOutcome (.ok result)
  | s :: ss, _ => do Stmt.tracedList ss (← s.traced)
termination_by structural ss => ss

def Stmt.tracedOption : Option (List Stmt) → Traced (Option Value)
  | none => .ofOutcome (.ok none)
  | some b => Stmt.tracedList b none
termination_by structural b => b
end

section
variable {fits : Int → Bool}

theorem cut_tracedList {ss : List Stmt}
    (h : ∀ s ∈ ss, s.eval { fits, levels := none } = s.traced.cut fits) (result : Option Value) :
    Stmt.evalList ss result { fits, levels := none } = (Stmt.tracedList ss result).cut fits := by
  induction ss generalizing result with
  | nil => rfl
  | cons s ss ih =>
    rw [Stmt.evalList, Stmt.tracedList, Traced.cut_bind, ← h s (by simp)]
    congr
    funext r
    exact ih (fun s' hs' => h s' (by simp [hs'])) r

theorem cut_tracedOption {e : Option (List Stmt)}
    (h : ∀ b ∈ e, ∀ s ∈ b, s.eval { fits, levels := none } = s.traced.cut fits) :
    Stmt.evalOption e { fits, levels := none } = (Stmt.tracedOption e).cut fits := by
  cases e with
  | none => rfl
  | some b => exact cut_tracedList (h b rfl) none

theorem cut_tracedOperand {op : TokenKind} {x : Option Expr}
    (h : ∀ e ∈ x, e.eval { fits, levels := none } = e.traced.cut fits) :
    Expr.evalOperand op x { fits, levels := none } = (Expr.tracedOperand op x).cut fits := by
  cases x with
  | none => rfl
  | some e =>
    rw [Expr.evalOperand, Expr.tracedOperand, Traced.cut_bind, ← h e rfl]
    rfl

/-- Without a bound on the levels, evaluation is the trace cut where a result does not fit. -/
theorem eval_eq_cut :
    (∀ e : Expr, e.eval { fits, levels := none } = e.traced.cut fits) ∧
      ∀ s : Stmt, s.eval { fits, levels := none } = s.traced.cut fits := by
  apply Tree.induct
  case name => exact fun text => rfl
  case number => exact fun value => by cases value <;> rfl
  case truth => exact fun b => rfl
  case unary =>
    intro op x hx
    rw [Expr.eval, Expr.traced]
    simp only [Limits.enter, Traced.cut_bind, Traced.cut_applyUnary, cut_tracedOperand hx]
    rfl
  case binary =>
    intro op x y hx hy
    rw [Expr.eval, Expr.traced]
    simp only [Limits.enter, Traced.cut_bind, Traced.cut_applyBinary, Traced.cut_ofOutcome,
      cut_tracedOperand hy, hx]
    rfl
  case conditional =>
    intro c t e hc ht he
    rw [Expr.eval, Expr.traced]
    simp only [Limits.enter, Traced.cut_bind, Traced.cut_ofOutcome, hc]
    congr
    funext r
    congr
    funext found
    cases found with
    | true => exact cut_tracedList ht none
    | false => exact cut_tracedOption he
  case function => exact fun ps b _ => rfl
  case call =>
    intro f as hf _
    rw [Expr.eval, Expr.traced]
    simp only [Limits.enter, Traced.cut_bind, Traced.cut_ofOutcome, hf]
  case binding => exact fun _ _ _ => rfl
  case ret => exact fun _ _ => rfl
  case expr => exact fun x hx => hx
  case block =>
    intro b hb
    rw [Stmt.eval, Stmt.traced]
    exact cut_tracedList hb none

end

namespace Program

def traced (program : Program) : Traced (Option Value) :=
  Stmt.tracedList program none

def operations (program : Program) : List Operation :=
  program.traced.operations

/-- The first operation whose exact result is no machine word. -/
def firstOverflow? (program : Program) : Option Operation :=
  program.operations.find? (!inRange ·.result)

theorem evalWithin_eq_cut (fits : Int → Bool) (program : Program) :
    program.evalWithin { fits, levels := none } = program.traced.cut fits :=
  cut_tracedList (fun s _ => eval_eq_cut.2 s) none

theorem traced_outcome (program : Program) :
    program.traced.outcome = program.evalWithin .exact := by
  rw [← Traced.cut_exact]
  exact (evalWithin_eq_cut _ program).symm

end Program

/-- On machine words a program has its exact outcome, unless an operation on the way to it
overflows: then the first of them is the problem. Only the levels are apart. All integers inside are
words. -/
theorem evalWithin_until_overflow {program : Program} (h : ∀ s ∈ program, s.Complete .machine) :
    (∀ levels, UpToLevels levels (program.evalWithin { fits := inRange, levels })
      (match program.firstOverflow? with
      | none => program.evalWithin .exact
      | some operation => .error (.problem operation.overflow))) ∧
    program.traced.outcome = program.evalWithin .exact ∧
    ∀ e ∈ program.parts, ∀ levels n,
      e.eval { fits := inRange, levels } = .ok (some (.integer n)) → inRange n = true := by
  refine ⟨?_, program.traced_outcome, ?_⟩
  · intro levels
    have hl := program.evalWithin_tighter (Limits.tighter_unbounded inRange levels)
    rw [program.evalWithin_eq_cut inRange, Traced.cut, program.traced_outcome] at hl
    simp only [Program.firstOverflow?, Program.operations]
    split at hl <;> rename_i hf <;> rw [hf] <;> exact hl
  · intro e he levels n hn
    have hc := Program.complete_part h e he
    have hs := hc.settlesWithin (P := (inRange · = true)) (fun _ hn => hn)
      { fits := inRange, levels } fun _ hn => hn
    rw [hn] at hs
    exact hs _ rfl

/-- The sum overflows before the quotient divides by zero. -/
theorem evalWithin_until_overflow_sum :
    let sum : Expr := .binary .plus (.number (some maxInteger)) (some (.number (some 1)))
    let program : Program := [.expr (.binary .slash sum (some (.number (some 0))))]
    (∀ s ∈ program, s.Complete .machine) ∧
      program.evalWithin .exact = .error (.problem .divisionByZero) ∧
      program.eval = .error (.problem (.integerOverflow "+")) := by
  intro sum program
  have hc : ∀ s ∈ program, s.Complete .machine := by
    intro s hs
    obtain rfl := List.mem_singleton.mp hs
    have hn (n : Int) (h : inRange n = true) : (Expr.number (some n)).Complete .machine := .number h
    have hsum : sum.Complete .machine :=
      .binary (l := .sum) rfl (hn maxInteger (by decide)) (hn 1 (by decide))
    exact .expr (.binary (l := .product) rfl hsum (hn 0 (by decide)))
  refine ⟨hc, rfl, ?_⟩
  rcases (evalWithin_until_overflow hc).1 (some 500) with he | ⟨_, he⟩
  · exact he
  · cases he

end ExprLang
