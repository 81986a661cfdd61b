import ExprLang.Fault
import ExprLang.Tree.Basic
import ExprLang.Value

/-!
Evaluation: the value of a tree, or of its last statement; some trees have no value. Operands are
evaluated from left to right before their operator is applied, and the first fault is the outcome.
Integers are those that fit; each expression and each block inside another takes one level.
-/

namespace ExprLang

/-- What an evaluation may use: the integers that a result may take, and the number of levels that
may be entered, if that is bounded. -/
structure Limits where
  fits : Int → Bool
  levels : Option Nat

namespace Limits

/-- Machine words, and a bounded number of levels. -/
def standard : Limits :=
  { fits := inRange, levels := some 500 }

def enter {α : Type} (limits : Limits) (inside : Limits → Except Fault α) : Except Fault α :=
  match limits.levels with
  | none => inside limits
  | some 0 => .error (.problem .nestingTooDeepToEvaluate)
  | some (n + 1) => inside { limits with levels := some n }

end Limits

namespace Evaluation

def typeMismatch {α : Type} (detail : String) : Except Fault α :=
  .error (.problem (.typeMismatch detail))

def symbolOf (op : TokenKind) : Except Fault String :=
  match op.symbol? with
  | some symbol => .ok symbol
  | none => .error .noSymbol

/-- The value of an operand, which must have one. -/
def required (op : TokenKind) (result : Option Value) : Except Fault Value :=
  match result with
  | some value => .ok value
  | none => do typeMismatch ("operand of '" ++ (← symbolOf op) ++ "' has no value")

def missing {α : Type} (op : TokenKind) : Except Fault α := do
  .error (.problem (.missingOperand ("'" ++ (← symbolOf op) ++ "'") "nothing"))

/-- An integer result of an operator, which must fit. -/
def checked (fits : Int → Bool) (op : TokenKind) (n : Int) : Except Fault Value :=
  if fits n then .ok (.integer n)
  else do .error (.problem (.integerOverflow (← symbolOf op)))

def applyUnary (fits : Int → Bool) (op : TokenKind) (value : Value) : Except Fault Value :=
  match op, value with
  | .bang, .boolean b => .ok (.boolean !b)
  | .bang, .integer _ => typeMismatch "!integer"
  | .minus, .integer n => checked fits op (-n)
  | .minus, .boolean _ => typeMismatch "-boolean"
  | op, _ => .error (.notBeforeOperand op)

/-- Division drops the fraction. -/
def applyInteger (fits : Int → Bool) (op : TokenKind) (a b : Int) : Except Fault Value :=
  match op with
  | .plus => checked fits op (a + b)
  | .minus => checked fits op (a - b)
  | .star => checked fits op (a * b)
  | .slash => if b = 0 then .error (.problem .divisionByZero) else checked fits op (a.tdiv b)
  | .less => .ok (.boolean (a < b))
  | .greater => .ok (.boolean (b < a))
  | .equal => .ok (.boolean (a = b))
  | .notEqual => .ok (.boolean (a ≠ b))
  | op => .error (.notBetweenOperands op)

def applyBoolean (op : TokenKind) (a b : Bool) : Except Fault Value :=
  match op with
  | .equal => .ok (.boolean (a = b))
  | .notEqual => .ok (.boolean (a ≠ b))
  | op => do typeMismatch ("boolean " ++ (← symbolOf op) ++ " boolean")

def applyBinary (fits : Int → Bool) (op : TokenKind) (left right : Value) : Except Fault Value :=
  match left, right with
  | .integer a, .integer b => applyInteger fits op a b
  | .boolean a, .boolean b => applyBoolean op a b
  | left, right => do
    typeMismatch (left.typeName ++ " " ++ (← symbolOf op) ++ " " ++ right.typeName)

def truthOf (result : Option Value) : Except Fault Bool :=
  match result with
  | some (.boolean b) => .ok b
  | result => typeMismatch ("if condition must be boolean, found " ++ resultTypeName result)

end Evaluation

open Evaluation

mutual
def Expr.eval : Expr → Limits → Except Fault (Option Value)
  | .name text, limits => limits.enter fun _ =>
    .error (.problem (.unboundName (text.getD "None")))
  | .number (some n), limits => limits.enter fun _ => .ok (some (.integer n))
  | .number none, limits => limits.enter fun _ => .error .noNumber
  | .truth b, limits => limits.enter fun _ => .ok (some (.boolean b))
  | .unary op x, limits => limits.enter fun inner => do
    return some (← applyUnary inner.fits op (← Expr.evalOperand op x inner))
  | .binary op x y, limits => limits.enter fun inner => do
    let left ← required op (← x.eval inner)
    let right ← Expr.evalOperand op y inner
    return some (← applyBinary inner.fits op left right)
  | .conditional c t e, limits => limits.enter fun inner => do
    if ← truthOf (← c.eval inner) then Stmt.evalList t none inner
    else Stmt.evalOption e inner
  | .function _ _, limits => limits.enter fun _ =>
    .error (.problem (.notEvaluable "function literal"))
  | .call f _, limits => limits.enter fun inner => do
    .error (.problem (.notCallable (resultTypeName (← f.eval inner))))
termination_by structural e => e

def Expr.evalOperand (op : TokenKind) : Option Expr → Limits → Except Fault Value
  | none, _ => missing op
  | some x, limits => do required op (← x.eval limits)
termination_by structural x => x

def Stmt.eval : Stmt → Limits → Except Fault (Option Value)
  | .binding _ _, _ => .error (.problem (.notEvaluable "let statement"))
  | .ret _, _ => .error (.problem (.notEvaluable "return statement"))
  | .expr e, limits => e.eval limits
  | .block body, limits => limits.enter fun inner => Stmt.evalList body none inner
termination_by structural s => s

/-- The result of the last of some statements, or the given one if there are none. -/
def Stmt.evalList : List Stmt → Option Value → Limits → Except Fault (Option Value)
  | [], result, _ => .ok result
  | s :: ss, _, limits => do Stmt.evalList ss (← s.eval limits) limits
termination_by structural ss => ss

def Stmt.evalOption : Option (List Stmt) → Limits → Except Fault (Option Value)
  | none, _ => .ok none
  | some body, limits => Stmt.evalList body none limits
termination_by structural body => body
end

namespace Program

def evalWithin (limits : Limits) (program : Program) : Except Fault (Option Value) :=
  Stmt.evalList program none limits

def eval (program : Program) : Except Fault (Option Value) :=
  program.evalWithin .standard

end Program

end ExprLang
