import ExprLang.Text.Quoted
import ExprLang.Tree.Basic

/-!
Dumps: a tree as lines, one for each node and each field, indented by depth. A field that is a tree
or a list of trees goes two levels deeper than the node that holds it.
-/

namespace ExprLang

/-- A line at an indentation level of two spaces each; levels below zero have none. -/
def dumpLine (level : Int) (text : String) : String :=
  String.ofList (List.replicate (2 * level).toNat ' ') ++ text

def dumpField (level : Int) (field value : String) : String :=
  dumpLine level ("  " ++ field ++ ": " ++ value)

def dumpChild (level : Int) (field : String) (lines : List String) : List String :=
  dumpLine level ("  " ++ field ++ ":") :: lines

def dumpList (level : Int) (field : String) (lines : List String) : List String :=
  dumpLine level ("  " ++ field ++ ": [") :: lines ++ [dumpLine level "  ]"]

def dumpName (level : Int) (name : Option String) : List String :=
  [dumpLine level "Identifier", dumpField level "name" (name.elim "None" Text.quoted)]

def dumpBody (level : Int) (lines : List String) : List String :=
  dumpLine level "BlockStatement" :: dumpList level "statements" lines

mutual
def Expr.dump : Expr → Int → List String
  | .name text, k => dumpName k text
  | .number value, k =>
    [dumpLine k "IntegerLiteral", dumpField k "value" (value.elim "None" Int.repr)]
  | .truth value, k =>
    [dumpLine k "BooleanLiteral", dumpField k "value" (if value then "True" else "False")]
  | .unary op operand, k =>
    dumpLine k "PrefixExpression" :: dumpField k "operator" op.label
      :: Expr.dumpOption "operand" operand k
  | .binary op left right, k =>
    dumpLine k "InfixExpression" :: dumpField k "operator" op.label
      :: dumpChild k "left" (left.dump (k + 2)) ++ Expr.dumpOption "right" right k
  | .conditional condition consequence none, k =>
    dumpLine k "IfExpression" :: dumpChild k "condition" (condition.dump (k + 2))
      ++ dumpChild k "consequence" (dumpBody (k + 2) (Stmt.dumps consequence (k + 4)))
      ++ [dumpField k "alternative" "None"]
  | .conditional condition consequence (some alternative), k =>
    dumpLine k "IfExpression" :: dumpChild k "condition" (condition.dump (k + 2))
      ++ dumpChild k "consequence" (dumpBody (k + 2) (Stmt.dumps consequence (k + 4)))
      ++ dumpChild k "alternative" (dumpBody (k + 2) (Stmt.dumps alternative (k + 4)))
  | .function parameters body, k =>
    dumpLine k "FunctionLiteral" :: dumpList k "parameters" (parameters.flatMap (dumpName (k + 2)))
      ++ dumpChild k "body" (dumpBody (k + 2) (Stmt.dumps body (k + 4)))
  | .call callee arguments, k =>
    dumpLine k "CallExpression" :: dumpChild k "callee" (callee.dump (k + 2))
      ++ dumpList k "arguments" (Expr.dumps arguments (k + 2))
termination_by structural e => e

def Stmt.dump : Stmt → Int → List String
  | .binding name value, k =>
    dumpLine k "LetStatement" :: dumpChild k "name" (dumpName (k + 2) name)
      ++ dumpChild k "value" (value.dump (k + 2))
  | .ret value, k => dumpLine k "ReturnStatement" :: Expr.dumpOption "value" value k
  | .expr value, k =>
    dumpLine k "ExpressionStatement" :: dumpChild k "expression" (value.dump (k + 2))
  | .block body, k => dumpBody k (Stmt.dumps body (k + 2))
termination_by structural s => s

/-- A field of the node at level `k` with an expression or nothing. -/
def Expr.dumpOption (field : String) : Option Expr → (k : Int) → List String
  | none, k => [dumpField k field "None"]
  | some value, k => dumpChild k field (value.dump (k + 2))
termination_by structural e => e

def Expr.dumps : List Expr → Int → List String
  | [], _ => []
  | e :: es, k => e.dump k ++ Expr.dumps es k
termination_by structural es => es

def Stmt.dumps : List Stmt → Int → List String
  | [], _ => []
  | s :: ss, k => s.dump k ++ Stmt.dumps ss k
termination_by structural ss => ss
end

def Node.dump (level : Int) : Node → List String
  | .program p => dumpLine level "Program" :: dumpList level "statements" (Stmt.dumps p (level + 2))
  | .stmt s => s.dump level
  | .expr e => e.dump level

end ExprLang
