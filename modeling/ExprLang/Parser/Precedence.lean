import ExprLang.Token.Kind

/-!
Precedence: how tightly a kind of token binds when it stands after an expression.
-/

namespace ExprLang

/-- Binding powers, the loosest first. -/
inductive Precedence where
  | lowest | equality | comparison | sum | product | unary | call
deriving DecidableEq, Repr

namespace Precedence

def toNat : Precedence → Nat
  | lowest => 1
  | equality => 2
  | comparison => 3
  | sum => 4
  | product => 5
  | unary => 6
  | call => 7

instance : LT Precedence := ⟨fun p q => p.toNat < q.toNat⟩

instance : LE Precedence := ⟨fun p q => p.toNat ≤ q.toNat⟩

instance (p q : Precedence) : Decidable (p < q) :=
  inferInstanceAs (Decidable (p.toNat < q.toNat))

instance (p q : Precedence) : Decidable (p ≤ q) :=
  inferInstanceAs (Decidable (p.toNat ≤ q.toNat))

end Precedence

/-- The binding power of a kind; what continues no expression has the lowest one. -/
def TokenKind.precedence : TokenKind → Precedence
  | equal | notEqual => .equality
  | less | greater => .comparison
  | plus | minus => .sum
  | star | slash => .product
  | openParen => .call
  | _ => .lowest

end ExprLang
