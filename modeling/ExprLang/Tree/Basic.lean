import ExprLang.Token.Kind

/-!
Syntax trees. Trees may be built by hand, so any kind of token may stand as an operator, any text as
a name, and the last operand of an operator may be missing; so may the text of a name and the value
of a number, which a token need not carry. Grouping leaves no trace in a tree; a conditional without
an `else` differs from one with an empty block there.
-/

namespace ExprLang

mutual
inductive Expr where
  | name (text : Option String)
  | number (value : Option Int)
  | truth (value : Bool)
  | unary (op : TokenKind) (operand : Option Expr)
  | binary (op : TokenKind) (left : Expr) (right : Option Expr)
  | conditional (condition : Expr) (consequence : List Stmt) (alternative : Option (List Stmt))
  | function (parameters : List (Option String)) (body : List Stmt)
  | call (callee : Expr) (arguments : List Expr)

inductive Stmt where
  | binding (name : Option String) (value : Expr)
  | ret (value : Option Expr)
  | expr (value : Expr)
  | block (body : List Stmt)
end

/-- A program is the list of its statements, in the order of evaluation. -/
abbrev Program := List Stmt

inductive Node where
  | program (program : Program)
  | stmt (stmt : Stmt)
  | expr (expr : Expr)

def Expr.label : Expr → String
  | .name _ => "Identifier"
  | .number _ => "IntegerLiteral"
  | .truth _ => "BooleanLiteral"
  | .unary _ _ => "PrefixExpression"
  | .binary _ _ _ => "InfixExpression"
  | .conditional _ _ _ => "IfExpression"
  | .function _ _ => "FunctionLiteral"
  | .call _ _ => "CallExpression"

def Stmt.label : Stmt → String
  | .binding _ _ => "LetStatement"
  | .ret _ => "ReturnStatement"
  | .expr _ => "ExpressionStatement"
  | .block _ => "BlockStatement"

def Node.label : Node → String
  | .program _ => "Program"
  | .stmt s => s.label
  | .expr e => e.label

end ExprLang
