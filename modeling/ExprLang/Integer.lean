/-!
The range of integers: signed words of 64 bits.
-/

namespace ExprLang

/-- The largest integer. -/
def maxInteger : Nat := 9223372036854775807

/-- Whether an integer is a signed word of 64 bits. -/
def inRange (n : Int) : Bool :=
  decide (-9223372036854775808 ≤ n ∧ n ≤ maxInteger)

end ExprLang
