import ExprLang.Fault
import ExprLang.Integer
import ExprLang.Tree.Basic

/-!
Rendering: a tree as source text. Operators are written with all their parentheses, so the text
groups as the tree does, whatever binds tighter. A negative number is written as a negation, since
numbers have no sign. A tree has no rendering if an operator in it has no symbol, a name no text or
a number no value.
-/

namespace ExprLang

/-- A number as an expression without signed numbers; all below the range are written alike. -/
def numberText (n : Int) : String :=
  if 0 ≤ n then n.repr
  else if maxInteger < -n then "((-" ++ maxInteger.repr ++ ") - 1)"
  else "(-" ++ (-n).repr ++ ")"

def truthText (value : Bool) : String :=
  if value then "true" else "false"

def bodyText (statements : List String) : String :=
  if statements.isEmpty then "\x7b \x7d"
  else "\x7b " ++ " ".intercalate statements ++ " \x7d"

def TokenKind.symbol (op : TokenKind) : String :=
  op.symbol?.getD ""

def TokenKind.textFault? (op : TokenKind) : Option Fault :=
  if op.isOperator then none else some .noSymbol

def nameText (name : Option String) : String :=
  name.getD ""

mutual
def Expr.text : Expr → String
  | .name text => nameText text
  | .number value => value.elim "" numberText
  | .truth value => truthText value
  | .unary op operand => "(" ++ op.symbol ++ Expr.textOption operand ++ ")"
  | .binary op left right =>
    "(" ++ left.text ++ " " ++ op.symbol ++ " " ++ Expr.textOption right ++ ")"
  | .conditional condition consequence none =>
    "if (" ++ condition.text ++ ") " ++ bodyText (Stmt.texts consequence)
  | .conditional condition consequence (some alternative) =>
    "if (" ++ condition.text ++ ") " ++ bodyText (Stmt.texts consequence) ++ " else "
      ++ bodyText (Stmt.texts alternative)
  | .function parameters body =>
    "fn(" ++ ", ".intercalate (parameters.map nameText) ++ ") " ++ bodyText (Stmt.texts body)
  | .call callee arguments =>
    callee.text ++ "(" ++ ", ".intercalate (Expr.texts arguments) ++ ")"

def Stmt.text : Stmt → String
  | .binding name value => "let " ++ nameText name ++ " = " ++ value.text ++ ";"
  | .ret none => "return;"
  | .ret (some value) => "return " ++ value.text ++ ";"
  | .expr value => value.text ++ ";"
  | .block body => bodyText (Stmt.texts body)

def Expr.textOption : Option Expr → String
  | none => "<missing>"
  | some operand => operand.text

def Expr.texts : List Expr → List String
  | [] => []
  | e :: es => e.text :: Expr.texts es

def Stmt.texts : List Stmt → List String
  | [] => []
  | s :: ss => s.text :: Stmt.texts ss
end

mutual
/-- The fault met first when an expression is written. Arguments are written before their callee. -/
def Expr.textFault? : Expr → Option Fault
  | .name (some _) | .number (some _) | .truth _ => none
  | .name none => some .noName
  | .number none => some .noNumber
  | .unary op operand => op.textFault?.or (Expr.textFaultOption? operand)
  | .binary op left right =>
    left.textFault?.or (op.textFault?.or (Expr.textFaultOption? right))
  | .conditional condition consequence none =>
    condition.textFault?.or (Stmt.textFaults? consequence)
  | .conditional condition consequence (some alternative) =>
    condition.textFault?.or
      ((Stmt.textFaults? consequence).or (Stmt.textFaults? alternative))
  | .function parameters body =>
    (if none ∈ parameters then some .noName else none).or (Stmt.textFaults? body)
  | .call callee arguments => (Expr.textFaults? arguments).or callee.textFault?

def Stmt.textFault? : Stmt → Option Fault
  | .binding none _ => some .noName
  | .binding (some _) value => value.textFault?
  | .ret value => Expr.textFaultOption? value
  | .expr value => value.textFault?
  | .block body => Stmt.textFaults? body

def Expr.textFaultOption? : Option Expr → Option Fault
  | none => none
  | some operand => operand.textFault?

def Expr.textFaults? : List Expr → Option Fault
  | [] => none
  | e :: es => e.textFault?.or (Expr.textFaults? es)

def Stmt.textFaults? : List Stmt → Option Fault
  | [] => none
  | s :: ss => s.textFault?.or (Stmt.textFaults? ss)
end

/-- A text, unless it could not be written. -/
def unlessFault (fault : Option Fault) (text : String) : Except Fault String :=
  match fault with
  | some fault => .error fault
  | none => .ok text

namespace Program

def text (program : Program) : String :=
  " ".intercalate (Stmt.texts program)

def render (program : Program) : Except Fault String :=
  unlessFault (Stmt.textFaults? program) program.text

end Program

def Node.render : Node → Except Fault String
  | .program p => p.render
  | .stmt s => unlessFault s.textFault? s.text
  | .expr e => unlessFault e.textFault? e.text

end ExprLang
