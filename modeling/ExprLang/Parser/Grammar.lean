import ExprLang.Parser.Basic
import ExprLang.Parser.Precedence
import ExprLang.Tree.Basic

/-!
The grammar. An expression is an operand followed by operators that bind tighter than a threshold;
a right operand is read at its operator's own power, so equal powers group to the left.

What stands inside something else is read one level further in: the operand of a sign, a right
operand, a group, an argument list, a block, the parts of a conditional, the body of a function.
Chains and lists take no levels. The number of levels is bounded.
-/

namespace ExprLang

def TokenKind.startsExpr : TokenKind → Bool
  | number | name | trueWord | falseWord | minus | bang | openParen | ifWord | fnWord => true
  | _ => false

def TokenKind.startsStmt (kind : TokenKind) : Bool :=
  kind.startsExpr || kind = letWord || kind = returnWord || kind = openBrace

/-- The kinds after which a `return` has no value. -/
def TokenKind.endsReturn (kind : TokenKind) : Bool :=
  kind = semicolon || kind = closeBrace || kind = endOfInput

namespace Parser

/-- The parsers for what stands one level further in. -/
structure Inner where
  expr : Precedence → Parser Expr
  statements : Parser (List Stmt)

def operand (inner : Inner) (op : Token) (power : Precedence) : Parser Expr := do
  let token ← peek
  if token.kind.startsExpr then inner.expr power
  else fail (.missingOperand op.kind.describe token.found)

/-- The statements of a block whose opening brace is consumed, and the closing brace. -/
def blockBody (inner : Inner) : Parser (List Stmt) := do
  let body ← inner.statements
  let _ ← take (· = .closeBrace) fun token =>
    if token.kind = .endOfInput then .unexpectedEnd TokenKind.closeBrace.describe
    else .noExpression token.found
  return body

def block (inner : Inner) : Parser (List Stmt) := do
  let _ ← expect .openBrace
  blockBody inner

def boundName : Parser (Option String) := do
  return (← expect .name).text?

/-- What follows `if`. -/
def conditional (inner : Inner) : Parser Expr := do
  let _ ← expect .openParen
  let condition ← inner.expr .lowest
  let _ ← expect .closeParen
  let consequence ← block inner
  if ← skip .elseWord then
    return .conditional condition consequence (some (← block inner))
  else
    return .conditional condition consequence none

/-- What follows `fn`. -/
def functionLiteral (inner : Inner) : Parser Expr := do
  let _ ← expect .openParen
  let parameters ← commaList boundName
  return .function parameters (← block inner)

/-- An operand whose first token is consumed. -/
def operandFrom (inner : Inner) (token : Token) : Parser Expr :=
  match token.kind with
  | .name => pure (.name token.text?)
  | .number => pure (.number token.number?)
  | .trueWord => pure (.truth true)
  | .falseWord => pure (.truth false)
  | .minus | .bang => do return .unary token.kind (some (← operand inner token .unary))
  | .openParen => do
    let e ← inner.expr .lowest
    let _ ← expect .closeParen
    return e
  | .ifWord => conditional inner
  | .fnWord => functionLiteral inner
  | _ => fail (.noExpression token.found)

/-- An expression extended by the operator that was just consumed. -/
def extend (inner : Inner) (left : Expr) (op : Token) : Parser Expr := do
  if op.kind = .openParen then
    return .call left (← commaList (inner.expr .lowest))
  else
    return .binary op.kind left (some (← operand inner op op.kind.precedence))

/-- An expression extended by all operators that bind tighter than a threshold. -/
def climb (inner : Inner) (power : Precedence) (left : Expr) : Parser Expr :=
  repeatWhile (power < ·.precedence) (extend inner) left

/-- An expression whose first token is consumed. -/
def exprFrom (inner : Inner) (power : Precedence) (token : Token) : Parser Expr := do
  climb inner power (← operandFrom inner token)

def expression (inner : Inner) (power : Precedence) : Parser Expr := do
  exprFrom inner power (← take TokenKind.startsExpr fun token => .noExpression token.found)

/-- A statement without the semicolon that may end it, its first token consumed. -/
def bareStmt (inner : Inner) (token : Token) : Parser Stmt :=
  match token.kind with
  | .letWord => do
    let name ← boundName
    let _ ← expect .assign
    return .binding name (← expression inner .lowest)
  | .returnWord => do
    if (← peek).kind.endsReturn then return .ret none
    else return .ret (some (← expression inner .lowest))
  | .openBrace => do return .block (← blockBody inner)
  | _ => do return .expr (← exprFrom inner .lowest token)

def stmtFrom (inner : Inner) (token : Token) : Parser Stmt := do
  let stmt ← bareStmt inner token
  let _ ← skip .semicolon
  return stmt

/-- Statements, up to a token that starts none. -/
def statements (inner : Inner) : Parser (List Stmt) :=
  many TokenKind.startsStmt (stmtFrom inner)

/-- The parsers within which so many more levels may be opened. -/
def level : Nat → Inner
  | 0 => { expr := fun _ => fail .nestingTooDeepToParse, statements := fail .nestingTooDeepToParse }
  | n + 1 => { expr := expression (level n), statements := statements (level n) }

/-- A program in which at most so many levels are open at once. -/
def programWithin (levels : Nat) : Parser Program := do
  let program ← statements (level levels)
  let _ ← take (· = .endOfInput) fun token => .noExpression token.found
  return program

def maxLevels : Nat := 500

def program : Parser Program :=
  programWithin maxLevels

end Parser

namespace Program

def ofTokens (tokens : List Token) : Except Fault Program :=
  (Parser.program.run (.ofTokens tokens)).1

/-- Reads a text, which is scanned no further than needed. -/
def ofText (text : String) : Except Fault Program :=
  (Parser.program.run (.ofText text)).1

end Program

end ExprLang
