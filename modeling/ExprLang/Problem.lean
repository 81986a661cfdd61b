import ExprLang.Text.Quoted

/-!
Problems: what can be wrong with a text or a tree, each with its code, its wording and its hints.
Codes E0xx stand for single tokens, E1xx for grammar, E2xx for names and types, E3xx for arithmetic
and for what cannot be evaluated.
-/

namespace ExprLang

structure Diagnostic where
  code : String
  message : String
  hints : List String := []
deriving DecidableEq, Repr

/-- A header line, then a line for each hint. -/
def Diagnostic.format (d : Diagnostic) : String :=
  "\n".intercalate
    (("error[" ++ d.code ++ "]: " ++ d.message) :: d.hints.map ("    = hint: " ++ ·))

inductive Problem where
  | unexpectedCharacter (text : String)
  | integerOutOfRange (text : String)
  | unexpectedToken (expected found : String)
  | unexpectedEnd (expected : String)
  | noExpression (found : String)
  | missingOperand (operator found : String)
  | nestingTooDeepToParse
  | typeMismatch (detail : String)
  | unboundName (name : String)
  | notCallable (typeName : String)
  | divisionByZero
  | integerOverflow (operator : String)
  | notEvaluable (construct : String)
  | nestingTooDeepToEvaluate
deriving DecidableEq, Repr

namespace Problem

def code : Problem → String
  | unexpectedCharacter _ => "E001"
  | integerOutOfRange _ => "E002"
  | unexpectedToken _ _ => "E101"
  | unexpectedEnd _ => "E102"
  | noExpression _ => "E103"
  | missingOperand _ _ => "E104"
  | nestingTooDeepToParse => "E105"
  | typeMismatch _ => "E201"
  | unboundName _ => "E202"
  | notCallable _ => "E203"
  | divisionByZero => "E301"
  | integerOverflow _ => "E302"
  | notEvaluable _ => "E303"
  | nestingTooDeepToEvaluate => "E304"

def message : Problem → String
  | unexpectedCharacter text => "unexpected character " ++ Text.quoted text
  | integerOutOfRange text => "integer literal '" ++ text ++ "' is out of range"
  | unexpectedToken expected found => "expected " ++ expected ++ ", found " ++ found
  | unexpectedEnd expected => "unexpected end of input, expected " ++ expected
  | noExpression found => "no prefix handler for token " ++ found
  | missingOperand operator found => "missing operand for " ++ operator ++ ", found " ++ found
  | nestingTooDeepToParse => "expression nested too deeply to parse"
  | typeMismatch detail => "type mismatch: " ++ detail
  | unboundName name => "unbound identifier '" ++ name ++ "'"
  | notCallable typeName => "value of type " ++ typeName ++ " is not callable"
  | divisionByZero => "division by zero"
  | integerOverflow operator => "integer overflow in '" ++ operator ++ "'"
  | notEvaluable construct => "cannot evaluate " ++ construct
  | nestingTooDeepToEvaluate => "expression nested too deeply to evaluate"

def hints : Problem → List String
  | integerOutOfRange _ => ["integer literals must fit in a signed 64-bit integer"]
  | unboundName _ => ["variable bindings are not supported by this evaluator"]
  | notEvaluable _ =>
    ["let, return and function literals need an environment, which is not supported"]
  | _ => []

def diagnostic (p : Problem) : Diagnostic :=
  { code := p.code, message := p.message, hints := p.hints }

def text (p : Problem) : String :=
  p.diagnostic.format

end Problem

end ExprLang
