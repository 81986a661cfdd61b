import ExprLang.Tree.Basic

/-!
Equality of trees is decidable.
-/

namespace ExprLang

mutual
def Expr.beq : Expr → Expr → Bool
  | .name a, .name b => a == b
  | .number a, .number b => a == b
  | .truth a, .truth b => a == b
  | .unary p a, .unary q b => p == q && Expr.beqOption a b
  | .binary p a c, .binary q b d => p == q && a.beq b && Expr.beqOption c d
  | .conditional a c e, .conditional b d f =>
    a.beq b && Stmt.beqList c d && Stmt.beqOption e f
  | .function a c, .function b d => a == b && Stmt.beqList c d
  | .call a c, .call b d => a.beq b && Expr.beqList c d
  | _, _ => false
termination_by structural a => a

def Stmt.beq : Stmt → Stmt → Bool
  | .binding a c, .binding b d => a == b && c.beq d
  | .ret a, .ret b => Expr.beqOption a b
  | .expr a, .expr b => a.beq b
  | .block a, .block b => Stmt.beqList a b
  | _, _ => false
termination_by structural a => a

def Expr.beqOption : Option Expr → Option Expr → Bool
  | none, none => true
  | some a, some b => a.beq b
  | _, _ => false
termination_by structural a => a

def Expr.beqList : List Expr → List Expr → Bool
  | [], [] => true
  | a :: as, b :: bs => a.beq b && Expr.beqList as bs
  | _, _ => false
termination_by structural a => a

def Stmt.beqList : List Stmt → List Stmt → Bool
  | [], [] => true
  | a :: as, b :: bs => a.beq b && Stmt.beqList as bs
  | _, _ => false
termination_by structural a => a

def Stmt.beqOption : Option (List Stmt) → Option (List Stmt) → Bool
  | none, none => true
  | some a, some b => Stmt.beqList a b
  | _, _ => false
termination_by structural a => a
end

mutual
theorem Expr.beq_iff : (a b : Expr) → (a.beq b = true ↔ a = b)
  | .name _, b => by cases b <;> simp [Expr.beq]
  | .number _, b => by cases b <;> simp [Expr.beq]
  | .truth _, b => by cases b <;> simp [Expr.beq]
  | .unary _ x, b => by cases b <;> simp [Expr.beq, Expr.beqOption_iff x]
  | .binary _ l r, b => by
    cases b <;> simp [Expr.beq, Expr.beq_iff l, Expr.beqOption_iff r, and_assoc]
  | .conditional c t e, b => by
    cases b <;> simp [Expr.beq, Expr.beq_iff c, Stmt.beqList_iff t, Stmt.beqOption_iff e, and_assoc]
  | .function _ body, b => by cases b <;> simp [Expr.beq, Stmt.beqList_iff body]
  | .call f as, b => by cases b <;> simp [Expr.beq, Expr.beq_iff f, Expr.beqList_iff as]
termination_by structural a => a

theorem Stmt.beq_iff : (a b : Stmt) → (a.beq b = true ↔ a = b)
  | .binding _ v, b => by cases b <;> simp [Stmt.beq, Expr.beq_iff v]
  | .ret x, b => by cases b <;> simp [Stmt.beq, Expr.beqOption_iff x]
  | .expr e, b => by cases b <;> simp [Stmt.beq, Expr.beq_iff e]
  | .block body, b => by cases b <;> simp [Stmt.beq, Stmt.beqList_iff body]
termination_by structural a => a

theorem Expr.beqOption_iff : (a b : Option Expr) → (Expr.beqOption a b = true ↔ a = b)
  | none, b => by cases b <;> simp [Expr.beqOption]
  | some x, b => by cases b <;> simp [Expr.beqOption, Expr.beq_iff x]
termination_by structural a => a

theorem Expr.beqList_iff : (a b : List Expr) → (Expr.beqList a b = true ↔ a = b)
  | [], b => by cases b <;> simp [Expr.beqList]
  | x :: xs, b => by cases b <;> simp [Expr.beqList, Expr.beq_iff x, Expr.beqList_iff xs]
termination_by structural a => a

theorem Stmt.beqList_iff : (a b : List Stmt) → (Stmt.beqList a b = true ↔ a = b)
  | [], b => by cases b <;> simp [Stmt.beqList]
  | x :: xs, b => by cases b <;> simp [Stmt.beqList, Stmt.beq_iff x, Stmt.beqList_iff xs]
termination_by structural a => a

theorem Stmt.beqOption_iff : (a b : Option (List Stmt)) → (Stmt.beqOption a b = true ↔ a = b)
  | none, b => by cases b <;> simp [Stmt.beqOption]
  | some x, b => by cases b <;> simp [Stmt.beqOption, Stmt.beqList_iff x]
termination_by structural a => a
end

instance : DecidableEq Expr := fun a b => decidable_of_iff _ (Expr.beq_iff a b)

instance : DecidableEq Stmt := fun a b => decidable_of_iff _ (Stmt.beq_iff a b)

end ExprLang
