import ExprLang.Integer

/-!
Values: what evaluation yields.
-/

namespace ExprLang

inductive Value where
  | integer (n : Int)
  | boolean (b : Bool)
deriving DecidableEq, Repr

namespace Value

/-- A value as program text. -/
def inspect : Value → String
  | integer n => n.repr
  | boolean b => if b then "true" else "false"

def typeName : Value → String
  | integer _ => "integer"
  | boolean _ => "boolean"

/-- A value with its type, as records show it. -/
def describe : Value → String
  | integer n => "Value(" ++ n.repr ++ ", INTEGER)"
  | boolean b => "Value(" ++ (if b then "True" else "False") ++ ", BOOLEAN)"

def fits : Value → Bool
  | integer n => inRange n
  | boolean _ => true

end Value

def resultTypeName : Option Value → String
  | none => "no value"
  | some value => value.typeName

end ExprLang
